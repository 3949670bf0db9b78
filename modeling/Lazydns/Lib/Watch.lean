import Mathlib.Data.Bool.Basic

/-!
# A channel for the latest value

A watch channel keeps one value and counts its versions. A receiver knows the version it has seen, and is told of another one only when there is one. What it read of the newest version is the value.
-/

structure Watch (α : Type) where
  value : α
  version : Nat
  closed : Bool
  deriving DecidableEq, Repr

namespace Watch

variable {α : Type} {w : Watch α} {seen : Nat} {read value : α}

def new (value : α) : Watch α := ⟨value, 0, false⟩

/-- There is no sender left after `close`, so nothing is sent. -/
def send (w : Watch α) (value : α) : Option (Watch α) :=
  if w.closed then none else some { w with value, version := w.version + 1 }

def close (w : Watch α) : Watch α := { w with closed := true }

/-- The receiver has seen a version, and has read the value at that version or a later one. -/
structure Read (w : Watch α) (seen : Nat) (read : α) : Prop where
  le : seen ≤ w.version
  newest : seen = w.version → w.value = read

theorem Read.refl (w : Watch α) : w.Read w.version w.value := ⟨Nat.le_refl _, fun _ => rfl⟩

theorem Read.send (h : w.Read seen read) {w' : Watch α} (hsend : w.send value = some w') : w'.Read seen read := by
  rw [Watch.send] at hsend
  split at hsend
  · cases hsend
  · cases hsend
    exact ⟨Nat.le_succ_of_le h.le, fun heq => absurd (heq ▸ h.le) (Nat.not_succ_le_self _)⟩

theorem Read.close (h : w.Read seen read) : w.close.Read seen read := ⟨h.le, h.newest⟩

theorem Read.again (h : seen ≤ w.version) : w.Read seen w.value := ⟨h, fun _ => rfl⟩

end Watch
