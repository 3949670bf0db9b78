import Mathlib.Data.List.Perm.Basic

/-!
# What is found first

The first element of a list that meets a condition. It is the same in every order of the list exactly if only one element can be found.
-/

namespace Found

variable {α : Type} {l l' : List α} {p : α → Bool} {a b : α}

/-- Only one element meets the condition. -/
def Single (p : α → Bool) (l : List α) : Prop := ∀ a ∈ l, ∀ b ∈ l, p a → p b → a = b

theorem Single.perm (h : Single p l) (hperm : l.Perm l') : l'.find? p = l.find? p := by
  cases hfound : l.find? p with
  | none =>
    have hnone := List.find?_eq_none.mp hfound
    exact List.find?_eq_none.mpr fun a ha => hnone a (hperm.mem_iff.mpr ha)
  | some a =>
    have ha := List.mem_of_find?_eq_some hfound
    have hpa := List.find?_some hfound
    cases hfound' : l'.find? p with
    | none => exact absurd hpa (List.find?_eq_none.mp hfound' a (hperm.mem_iff.mp ha))
    | some b =>
      have hb := hperm.mem_iff.mpr (List.mem_of_find?_eq_some hfound')
      rw [h a ha b hb hpa (List.find?_some hfound')]

theorem exists_perm_find? (ha : a ∈ l) (hpa : p a) : ∃ l', l.Perm l' ∧ l'.find? p = some a := by
  obtain ⟨front, back, rfl⟩ := List.append_of_mem ha
  exact ⟨a :: (front ++ back), List.perm_middle, List.find?_cons_of_pos hpa⟩

theorem single_iff : Single p l ↔ ∀ l', l.Perm l' → l'.find? p = l.find? p := by
  constructor
  · exact fun h l' hperm => h.perm hperm
  · intro h a ha b hb hpa hpb
    obtain ⟨l₁, hperm₁, hfound₁⟩ := exists_perm_find? ha hpa
    obtain ⟨l₂, hperm₂, hfound₂⟩ := exists_perm_find? hb hpb
    have heq := (h l₁ hperm₁).trans (h l₂ hperm₂).symm
    rw [hfound₁, hfound₂] at heq
    exact Option.some.inj heq

end Found
