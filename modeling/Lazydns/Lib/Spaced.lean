import Mathlib.Data.List.Basic

/-!
# Times that keep their distance

Something that is not done again before a time is over is done only so often in any stretch of time.
-/

/-- Each time is at least `gap` after those before it. -/
def Spaced (gap : Nat) (times : List Nat) : Prop := times.Pairwise fun t t' => t + gap ≤ t'

namespace Spaced

variable {gap t : Nat} {times : List Nat}

instance : Decidable (Spaced gap times) := inferInstanceAs (Decidable (List.Pairwise _ _))

theorem nil : Spaced gap [] := List.Pairwise.nil

theorem append (h : Spaced gap times) (hlast : ∀ t', times.getLast? = some t' → t' + gap ≤ t) :
    Spaced gap (times ++ [t]) := by
  refine List.pairwise_append.mpr ⟨h, List.pairwise_singleton _ _, fun t' hmem t'' hmem' => ?_⟩
  rw [List.mem_singleton.mp hmem']
  cases hgot : times.getLast? with
  | none =>
    rw [List.getLast?_eq_none_iff.mp hgot] at hmem
    cases hmem
  | some last =>
    have hle := hlast last hgot
    obtain ⟨earlier, rfl⟩ := List.getLast?_eq_some_iff.mp hgot
    obtain hearlier | hlast := List.mem_append.mp hmem
    · have := (List.pairwise_append.mp h).2.2 t' hearlier last (List.mem_singleton_self last)
      omega
    · rw [List.mem_singleton.mp hlast]
      exact hle

theorem filter (h : Spaced gap times) (p : Nat → Bool) : Spaced gap (times.filter p) := List.Pairwise.filter p h

/-- Some time is as far from the first as the number of the others demands. -/
theorem exists_add_mul_le (h : Spaced gap (t :: times)) : ∃ t' ∈ t :: times, t + times.length * gap ≤ t' := by
  induction times generalizing t with
  | nil => exact ⟨t, List.mem_cons_self, by simp⟩
  | cons t₁ times ih =>
    obtain ⟨hfirst, hrest⟩ := List.pairwise_cons.mp h
    obtain ⟨t', hmem, hle⟩ := ih hrest
    have hnext := hfirst t₁ List.mem_cons_self
    refine ⟨t', List.mem_cons_of_mem _ hmem, ?_⟩
    rw [List.length_cons, Nat.add_mul, Nat.one_mul]
    omega

/-- In a stretch of time there are only so many. -/
theorem countP_le (h : Spaced gap times) (start duration : Nat) :
    let count := times.countP fun t => start ≤ t ∧ t < start + duration
    count = 0 ∨ (count - 1) * gap < duration := by
  intro count
  have hcount : count = (times.filter fun t => start ≤ t ∧ t < start + duration).length := List.countP_eq_length_filter
  have hfilter := h.filter fun t => start ≤ t ∧ t < start + duration
  cases hinside : times.filter fun t => start ≤ t ∧ t < start + duration with
  | nil =>
    rw [hinside] at hcount
    exact .inl hcount
  | cons t inside =>
    rw [hinside] at hfilter hcount
    obtain ⟨t', hmem, hle⟩ := exists_add_mul_le hfilter
    have hbounds : ∀ t₁ ∈ t :: inside, start ≤ t₁ ∧ t₁ < start + duration := by
      intro t₁ hmem₁
      rw [← hinside] at hmem₁
      exact of_decide_eq_true (List.mem_filter.mp hmem₁).2
    have hfirst := hbounds t List.mem_cons_self
    have hlast := hbounds t' hmem
    rw [hcount, List.length_cons, Nat.add_sub_cancel]
    exact .inr (by omega)

end Spaced
