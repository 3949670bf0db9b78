import Mathlib.Data.List.Sort

/-!
# The largest of a list

A list of values put in descending order. What is above a threshold stands in front: its number says which places are above the threshold, and the places in front stay the same when everything else is taken away.
-/

namespace Ranked

variable {α : Type} [LinearOrder α] {l l' : List α} {t : α} {k : Nat}

def descending (l : List α) : List α := l.insertionSort (· ≥ ·)

theorem descending_perm (l : List α) : (descending l).Perm l := List.perm_insertionSort _ l

theorem descending_pairwise (l : List α) : (descending l).Pairwise (· ≥ ·) := List.pairwise_insertionSort _ l

theorem length_descending (l : List α) : (descending l).length = l.length := (descending_perm l).length_eq

/-- There is only one way to put values in descending order. -/
theorem eq_descending (h : l'.Pairwise (· ≥ ·)) (hperm : l'.Perm l) : l' = descending l :=
  List.Perm.eq_of_pairwise (fun _ _ _ _ hab hba => le_antisymm hba hab) h (descending_pairwise l)
    (hperm.trans (descending_perm l).symm)

theorem descending_filter (p : α → Bool) (l : List α) : descending (l.filter p) = (descending l).filter p :=
  (eq_descending ((descending_pairwise l).filter p) ((descending_perm l).filter p)).symm

/-! ### A threshold -/

theorem filter_lt_eq_nil {a : α} (h : (a :: l).Pairwise (· ≥ ·)) (ha : ¬t < a) :
    (a :: l).filter (fun b => t < b) = [] := by
  rw [List.filter_eq_nil_iff]
  intro b hb hlt
  have hle : b ≤ a := by
    rcases List.mem_cons.mp hb with rfl | hb
    · exact le_refl b
    · exact (List.pairwise_cons.mp h).1 b hb
  exact ha ((of_decide_eq_true hlt).trans_le hle)

theorem filter_lt_eq_takeWhile (h : l.Pairwise (· ≥ ·)) (t : α) :
    l.filter (fun a => t < a) = l.takeWhile fun a => t < a := by
  induction l with
  | nil => rfl
  | cons a l ih =>
    by_cases ha : t < a
    · rw [List.filter_cons_of_pos (by simpa using ha), List.takeWhile_cons_of_pos (by simpa using ha),
        ih (List.pairwise_cons.mp h).2]
    · rw [filter_lt_eq_nil h ha, List.takeWhile_cons_of_neg (by simpa using ha)]

theorem isPrefix_filter_lt (h : l.Pairwise (· ≥ ·)) (t : α) : l.filter (fun a => t < a) <+: l := by
  rw [filter_lt_eq_takeWhile h]
  exact List.takeWhile_prefix _

/-- A place is above the threshold if more values are than there are places in front of it. -/
theorem lt_length_filter_iff (h : l.Pairwise (· ≥ ·)) :
    k < (l.filter fun a => t < a).length ↔ ∃ a, l[k]? = some a ∧ t < a := by
  induction l generalizing k with
  | nil => simp
  | cons a l ih =>
    by_cases ha : t < a
    · rw [List.filter_cons_of_pos (by simpa using ha)]
      cases k with
      | zero => simpa using ha
      | succ k => simpa using ih (List.pairwise_cons.mp h).2
    · rw [filter_lt_eq_nil h ha]
      refine iff_of_false (Nat.not_lt_zero k) ?_
      rintro ⟨b, hb, hlt⟩
      exact List.filter_eq_nil_iff.mp (filter_lt_eq_nil h ha) b (List.mem_of_getElem? hb) (decide_eq_true hlt)

theorem take_descending_filter (hk : k ≤ (l.filter fun a => t < a).length) :
    (descending (l.filter fun a => t < a)).take k = (descending l).take k := by
  have hlength : (l.filter fun a => t < a).length = ((descending l).filter fun a => t < a).length :=
    ((descending_perm l).filter _).length_eq.symm
  rw [descending_filter, List.prefix_iff_eq_take.mp (isPrefix_filter_lt (descending_pairwise l) t), List.take_take,
    Nat.min_eq_left (hlength ▸ hk)]

end Ranked
