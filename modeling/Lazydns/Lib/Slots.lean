import Mathlib.Algebra.GroupWithZero.Nat
import Mathlib.Data.List.Perm.Basic
import Mathlib.Logic.Function.Basic

/-!
# Lists whose places are kept

Tasks are on a list: a new one is put at the end, and one that goes on is replaced in its place. What is at a place afterwards is the new one or was there before. The same goes for what a map has at a key.
-/

namespace Slots

variable {α : Type} {l : List α} {i j : Nat} {a b c : α}

theorem getElem?_set_iff (h : l[i]? = some a) :
    (l.set i c)[j]? = some b ↔ j = i ∧ b = c ∨ j ≠ i ∧ l[j]? = some b := by
  rw [List.getElem?_set]
  by_cases hij : i = j
  · subst hij
    rw [if_pos rfl, if_pos (List.getElem?_eq_some_iff.mp h).1]
    constructor
    · exact fun hc => .inl ⟨rfl, (Option.some.inj hc).symm⟩
    · rintro (⟨-, rfl⟩ | ⟨hne, -⟩)
      · rfl
      · exact absurd rfl hne
  · rw [if_neg hij]
    constructor
    · exact fun hb => .inr ⟨Ne.symm hij, hb⟩
    · rintro (⟨rfl, -⟩ | ⟨-, hb⟩)
      · exact absurd rfl hij
      · exact hb

theorem getElem?_append_iff : (l ++ [c])[j]? = some b ↔ l[j]? = some b ∨ j = l.length ∧ b = c := by
  rw [List.getElem?_append]
  by_cases hj : j < l.length
  · rw [if_pos hj]
    exact ⟨.inl, fun h => h.resolve_right fun h => Nat.lt_irrefl _ (h.1 ▸ hj)⟩
  · rw [if_neg hj, List.getElem?_eq_none (Nat.le_of_not_lt hj), List.getElem?_singleton]
    constructor
    · intro h
      obtain ⟨hzero, heq⟩ := Option.ite_none_right_eq_some.mp h
      exact .inr ⟨by omega, (Option.some.inj heq).symm⟩
    · rintro (h | ⟨rfl, rfl⟩)
      · cases h
      · rw [Nat.sub_self]
        rfl

theorem mem_set_of_ne (h : l[i]? = some a) (hb : b ∈ l) (hne : b ≠ a) (c : α) : b ∈ l.set i c := by
  obtain ⟨j, hj⟩ := List.mem_iff_getElem?.mp hb
  refine List.mem_iff_getElem?.mpr ⟨j, (getElem?_set_iff h).mpr (.inr ⟨?_, hj⟩)⟩
  rintro rfl
  rw [h] at hj
  exact hne (Option.some.inj hj).symm

/-- What is at a place goes on as something else, or is taken off. -/
def replace (l : List α) (i : Nat) : Option α → List α
  | some b => l.set i b
  | none => l.eraseIdx i

theorem perm_cons_eraseIdx (h : l[i]? = some a) : l.Perm (a :: l.eraseIdx i) := by
  obtain ⟨hi, rfl⟩ := List.getElem?_eq_some_iff.mp h
  exact (List.getElem_cons_eraseIdx_perm hi).symm

theorem replace_perm (h : l[i]? = some a) (o : Option α) : (replace l i o).Perm (o.toList ++ l.eraseIdx i) := by
  cases o with
  | none => exact List.Perm.refl _
  | some b => exact List.set_perm_cons_eraseIdx (List.getElem?_eq_some_iff.mp h).1 b

theorem countP_replace (h : l[i]? = some a) (o : Option α) (p : α → Bool) :
    (replace l i o).countP p + (p a).toNat = l.countP p + (o.any p).toNat := by
  rw [(replace_perm h o).countP_eq, (perm_cons_eraseIdx h).countP_eq, List.countP_append, List.countP_cons]
  cases o with
  | none => cases p a <;> simp
  | some b => cases hb : p b <;> cases p a <;> simp [hb] <;> omega

/-- What the one at a place contributes is exchanged for what goes on there. -/
theorem filterMap_replace {β : Type} (h : l[i]? = some a) (o : Option α) (f : α → Option β) :
    ((f a).toList ++ (replace l i o).filterMap f).Perm ((o.bind f).toList ++ l.filterMap f) := by
  have hold : (l.filterMap f).Perm ((f a).toList ++ (l.eraseIdx i).filterMap f) := by
    refine ((perm_cons_eraseIdx h).filterMap f).trans ?_
    cases ha : f a <;> simp [ha]
  have hnew : ((replace l i o).filterMap f).Perm ((o.bind f).toList ++ (l.eraseIdx i).filterMap f) := by
    refine ((replace_perm h o).filterMap f).trans ?_
    cases o with
    | none => simp
    | some b => cases hb : f b <;> simp [hb]
  refine (hnew.append_left _).trans (List.Perm.trans ?_ (hold.symm.append_left _))
  exact List.perm_append_comm_assoc _ _ _

theorem update_eq_some_iff {κ : Type} [DecidableEq κ] {f : κ → Option α} {k k' : κ} {o : Option α} :
    Function.update f k o k' = some a ↔ k' = k ∧ o = some a ∨ k' ≠ k ∧ f k' = some a := by
  by_cases hk : k' = k
  · subst hk
    simp
  · simp [hk]

theorem sum_map_set (h : l[i]? = some a) (c : α) (f : α → Nat) :
    ((l.set i c).map f).sum + f a = (l.map f).sum + f c := by
  have hset : (l.set i c).Perm (c :: l.eraseIdx i) :=
    List.set_perm_cons_eraseIdx (List.getElem?_eq_some_iff.mp h).1 c
  rw [(hset.map f).sum_nat, ((perm_cons_eraseIdx h).map f).sum_nat, List.map_cons, List.map_cons, List.sum_cons,
    List.sum_cons]
  omega

theorem sum_map_set_lt {f : α → Nat} (hf : f c < f a) : ∀ {l : List α} {i : Nat}, l[i]? = some a →
    ((l.set i c).map f).sum < (l.map f).sum
  | _ :: _, 0, h => by
    cases h
    exact Nat.add_lt_add_right hf _
  | _ :: _, i + 1, h => Nat.add_lt_add_left (sum_map_set_lt (i := i) hf h) _

end Slots
