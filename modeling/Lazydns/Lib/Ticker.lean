import Mathlib.Data.Nat.Init

/-!
# Intervals

An interval ticks for the first time when it is started, and then once in each period. A tick that is taken late does not move the ones after it. So there are never more ticks than periods have begun, and where none is due there are exactly as many.
-/

structure Ticker where
  next : Nat
  period : Nat
  deriving DecidableEq, Repr

namespace Ticker

def start (now period : Nat) : Ticker := ⟨now, period⟩

def Due (i : Ticker) (now : Nat) : Prop := i.next ≤ now

instance (i : Ticker) (now : Nat) : Decidable (i.Due now) := inferInstanceAs (Decidable (i.next ≤ now))

def tick (i : Ticker) : Ticker := { i with next := i.next + i.period }

/-- The interval was started at `start` and has ticked `n` times since, each time when it was due. -/
structure Ticked (start period n now : Nat) (i : Ticker) : Prop where
  every : i.period = period
  next : i.next = start + n * period
  past : ∀ k < n, start + k * period ≤ now

variable {now now' period n begun : Nat} {i : Ticker}

theorem ticked_start (now period : Nat) : Ticked now period 0 now (start now period) where
  every := rfl
  next := by
    show now = now + 0 * period
    omega
  past k hk := absurd hk (Nat.not_lt_zero k)

theorem Ticked.later (h : Ticked begun period n now i) (hle : now ≤ now') : Ticked begun period n now' i :=
  ⟨h.every, h.next, fun k hk => Nat.le_trans (h.past k hk) hle⟩

theorem Ticked.tick (h : Ticked begun period n now i) (hdue : i.Due now) :
    Ticked begun period (n + 1) now i.tick where
  every := h.every
  next := by
    show i.next + i.period = _
    rw [h.next, h.every, Nat.add_mul, Nat.one_mul, Nat.add_assoc]
  past k hk := by
    rcases Nat.lt_or_eq_of_le (Nat.le_of_lt_succ hk) with hk | rfl
    · exact h.past k hk
    · rw [← h.next]
      exact hdue

theorem Ticked.le (h : Ticked begun period n now i) (hperiod : 0 < period) (hbegun : begun ≤ now) :
    n ≤ (now - begun) / period + 1 := by
  cases n with
  | zero => exact Nat.zero_le _
  | succ n =>
    have hpast := h.past n (Nat.lt_succ_self n)
    apply Nat.succ_le_succ
    apply (Nat.le_div_iff_mul_le hperiod).mpr
    omega

/-- If no tick is due, none is missing. -/
theorem Ticked.eq (h : Ticked begun period n now i) (hperiod : 0 < period) (hbegun : begun ≤ now)
    (hdue : ¬i.Due now) : n = (now - begun) / period + 1 := by
  have hle := h.le hperiod hbegun
  have hlt : (now - begun) / period < n := by
    apply (Nat.div_lt_iff_lt_mul hperiod).mpr
    have hnext : now < i.next := Nat.lt_of_not_le hdue
    rw [h.next] at hnext
    omega
  exact Nat.le_antisymm hle hlt

end Ticker
