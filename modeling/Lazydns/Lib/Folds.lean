import Mathlib.Data.List.Perm.Basic

/-!
# Folds in any order

A list is folded over a state, up to an equivalence of states. What comes out does not depend on the order of the list exactly if each two of its elements can be exchanged. Where an exchange comes out the same from one state if it does from all, that is a condition on the elements alone.
-/

namespace Folds

variable {σ α : Type*} {f : σ → α → σ} {R : σ → σ → Prop} {I : σ → Prop} {s t : σ} {l l' : List α}

/-- From the state, two elements come out the same in either order. -/
def Exchange (f : σ → α → σ) (R : σ → σ → Prop) (s : σ) (a b : α) : Prop := R (f (f s a) b) (f (f s b) a)

def OrderFree (f : σ → α → σ) (R : σ → σ → Prop) (s : σ) (l : List α) : Prop :=
  ∀ l₁ l₂ : List α, l₁.Perm l → l₂.Perm l → R (l₁.foldl f s) (l₂.foldl f s)

/-- The step respects an equivalence and keeps an invariant. -/
structure Respects (f : σ → α → σ) (R : σ → σ → Prop) (I : σ → Prop) : Prop where
  equivalence : Equivalence R
  congr : ∀ {s t}, R s t → ∀ a, R (f s a) (f t a)
  keeps : ∀ {s}, I s → ∀ a, I (f s a)

namespace Respects

variable (hf : Respects f R I)
include hf

theorem foldl_congr (h : R s t) (l : List α) : R (l.foldl f s) (l.foldl f t) := by
  induction l generalizing s t with
  | nil => exact h
  | cons a l ih => exact ih (hf.congr h a)

theorem foldl_keeps (h : I s) (l : List α) : I (l.foldl f s) := by
  induction l generalizing s with
  | nil => exact h
  | cons a l ih => exact ih (hf.keeps h a)

theorem foldl_perm (hperm : l.Perm l') (hexchange : l.Pairwise fun a b => ∀ s, I s → Exchange f R s a b)
    (hI : I s) : R (l.foldl f s) (l'.foldl f s) := by
  induction hperm generalizing s with
  | nil => exact hf.equivalence.refl _
  | cons a hperm ih => exact ih hexchange.of_cons (hf.keeps hI a)
  | swap a b l => exact hf.foldl_congr (List.rel_of_pairwise_cons hexchange List.mem_cons_self s hI) l
  | trans hperm hperm' ih ih' =>
    have hexchange' := hexchange.perm hperm fun h s hI => hf.equivalence.symm (h s hI)
    exact hf.equivalence.trans (ih hexchange hI) (ih' hexchange' hI)

theorem orderFree_iff {C : α → α → Prop} (hC : l.Pairwise fun a b => ∀ s, I s → (Exchange f R s a b ↔ C a b))
    (hI : I s) : OrderFree f R s l ↔ l.Pairwise C := by
  constructor
  · intro h
    rw [List.pairwise_iff_forall_sublist] at hC ⊢
    intro a b hsub
    -- The two elements behind all the others, in either order.
    obtain ⟨rest, hperm⟩ := hsub.exists_perm_append
    have hlast : (rest ++ [a, b]).Perm l := List.perm_append_comm.trans hperm.symm
    have hlast' : (rest ++ [b, a]).Perm l := ((List.Perm.swap a b []).append_left rest).trans hlast
    have hfolds := h _ _ hlast hlast'
    rw [List.foldl_append, List.foldl_append] at hfolds
    exact (hC hsub _ (hf.foldl_keeps hI rest)).mp hfolds
  · intro h l₁ l₂ hl₁ hl₂
    have hexchange : l.Pairwise fun a b => ∀ s, I s → Exchange f R s a b :=
      (hC.and h).imp fun ⟨hiff, hab⟩ s hI => (hiff s hI).mpr hab
    exact hf.equivalence.trans (hf.equivalence.symm (hf.foldl_perm hl₁.symm hexchange hI))
      (hf.foldl_perm hl₂.symm hexchange hI)

end Respects

end Folds
