import Mathlib.Data.List.Induction
import Mathlib.Tactic.Ring

/-!
# Digits of a fixed number of places

The last digits of a number, the lowest first, and the number that a list of digits is, the highest first. Each undoes the other for digits below the base and for numbers that have no more places.
-/

namespace Radix

variable {b k n : Nat}

def digits (b k n : Nat) : List Nat := (List.range k).map fun i => n / b ^ i % b

/-- The number of some digits, the highest first, behind the digits of `n`. -/
def value (b n : Nat) (ds : List Nat) : Nat := ds.foldl (fun m d => b * m + d) n

theorem length_digits : (digits b k n).length = k := by
  rw [digits, List.length_map, List.length_range]

theorem lt_of_mem_digits (hb : 0 < b) {d : Nat} (hd : d ∈ digits b k n) : d < b := by
  obtain ⟨i, -, rfl⟩ := List.mem_map.mp hd
  exact Nat.mod_lt _ hb

theorem digits_succ : digits b (k + 1) n = n % b :: digits b k (n / b) := by
  rw [digits, List.range_succ_eq_map, List.map_cons, List.map_map, Nat.pow_zero, Nat.div_one]
  congr 1
  apply List.map_congr_left
  intro i _
  rw [Function.comp, Nat.pow_succ', Nat.div_div_eq_div_mul]

theorem value_append_singleton (ds : List Nat) (d : Nat) : value b n (ds ++ [d]) = b * value b n ds + d := by
  rw [value, List.foldl_append]
  rfl

theorem value_eq_add (ds : List Nat) : value b n ds = n * b ^ ds.length + value b 0 ds := by
  induction ds using List.reverseRecOn with
  | nil => rw [List.length_nil, Nat.pow_zero, Nat.mul_one]; rfl
  | append_singleton ds d ih =>
    rw [value_append_singleton, value_append_singleton, ih, List.length_append, List.length_singleton, Nat.pow_succ]
    ring

theorem value_reverse_digits (hn : n < b ^ k) : value b 0 (digits b k n).reverse = n := by
  induction k generalizing n with
  | zero =>
    rw [Nat.pow_zero] at hn
    rw [Nat.lt_one_iff.mp hn]
    rfl
  | succ k ih =>
    have hdiv : n / b < b ^ k := by
      rw [Nat.pow_succ'] at hn
      exact Nat.div_lt_of_lt_mul hn
    rw [digits_succ, List.reverse_cons, value_append_singleton, ih hdiv]
    exact Nat.div_add_mod n b

theorem digits_value {ds : List Nat} (hds : ∀ d ∈ ds, d < b) : digits b ds.length (value b 0 ds) = ds.reverse := by
  induction ds using List.reverseRecOn with
  | nil => rfl
  | append_singleton ds d ih =>
    have hd : d < b := hds d (List.mem_append_right _ List.mem_cons_self)
    rw [List.length_append, List.length_singleton, digits_succ, value_append_singleton, Nat.mul_add_mod,
      Nat.mod_eq_of_lt hd, Nat.mul_add_div (Nat.zero_lt_of_lt hd), Nat.div_eq_of_lt hd, Nat.add_zero,
      ih fun d hd => hds d (List.mem_append_left _ hd), List.reverse_append]
    rfl

theorem value_lt {ds : List Nat} (hds : ∀ d ∈ ds, d < b) : value b 0 ds < b ^ ds.length := by
  induction ds using List.reverseRecOn with
  | nil => exact Nat.zero_lt_one
  | append_singleton ds d ih =>
    have hd : d < b := hds d (List.mem_append_right _ List.mem_cons_self)
    have hlt := ih fun d hd => hds d (List.mem_append_left _ hd)
    rw [value_append_singleton, List.length_append, List.length_singleton, Nat.pow_succ']
    calc b * value b 0 ds + d < b * value b 0 ds + b := by omega
      _ = b * (value b 0 ds + 1) := by ring
      _ ≤ b * b ^ ds.length := Nat.mul_le_mul_left b hlt

end Radix
