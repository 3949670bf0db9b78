import Mathlib.Logic.Basic

/-!
# Programs that may fail halfway

A program over a state either returns a value or fails with an error, and in both cases leaves a state behind: what it did before it failed stays done. A specification says what holds before, what after a success, and what after a failure, and there is one rule for each way to put programs together.
-/

/-- From a state, a result or an error, and the state it was left in. -/
structure Fallible (σ ε α : Type) where
  run : σ → Except ε α × σ

namespace Fallible

variable {σ ε α β : Type}

protected def pure (a : α) : Fallible σ ε α := ⟨fun s => (.ok a, s)⟩

/-- The second program does not run where the first fails. -/
protected def bind (m : Fallible σ ε α) (f : α → Fallible σ ε β) : Fallible σ ε β where
  run s :=
    match m.run s with
    | (.ok a, s') => (f a).run s'
    | (.error e, s') => (.error e, s')

instance : Monad (Fallible σ ε) where
  pure := Fallible.pure
  bind := Fallible.bind

def fail (e : ε) : Fallible σ ε α := ⟨fun s => (.error e, s)⟩

theorem bind_of_ok {m : Fallible σ ε α} {s s' : σ} {a : α} (h : m.run s = (.ok a, s')) (f : α → Fallible σ ε β) :
    (m >>= f).run s = (f a).run s' := by
  change (match m.run s with | (.ok a, s') => (f a).run s' | (.error e, s') => (.error e, s')) = (f a).run s'
  rw [h]

theorem bind_of_error {m : Fallible σ ε α} {s s' : σ} {e : ε} (h : m.run s = (.error e, s')) (f : α → Fallible σ ε β) :
    (m >>= f).run s = (.error e, s') := by
  change (match m.run s with | (.ok a, s') => (f a).run s' | (.error e, s') => (.error e, s')) = (.error e, s')
  rw [h]

/-- From a state in `P` the program succeeds in a state in `Q`, or fails in one in `E`. -/
def Spec (P : σ → Prop) (m : Fallible σ ε α) (Q : α → σ → Prop) (E : σ → Prop) : Prop :=
  ∀ s, P s → match m.run s with
    | (.ok a, s') => Q a s'
    | (.error _, s') => E s'

variable {P P' : σ → Prop} {Q Q' : α → σ → Prop} {E E' : σ → Prop} {m : Fallible σ ε α}

theorem Spec.pure {a : α} (h : ∀ s, P s → Q a s) : Spec P (Pure.pure a : Fallible σ ε α) Q E := h

theorem Spec.fail {e : ε} (h : ∀ s, P s → E s) : Spec P (Fallible.fail e : Fallible σ ε α) Q E := h

theorem Spec.bind {R : β → σ → Prop} {f : α → Fallible σ ε β} (hm : Spec P m Q E)
    (hf : ∀ a, Spec (Q a) (f a) R E) : Spec P (m >>= f) R E := by
  intro s hs
  have hspec := hm s hs
  cases hrun : m.run s with
  | mk result s' =>
    rw [hrun] at hspec
    cases result with
    | ok a =>
      rw [bind_of_ok hrun]
      exact hf a s' hspec
    | error e =>
      rw [bind_of_error hrun]
      exact hspec

/-- The rule of consequence. -/
theorem Spec.mono (hm : Spec P m Q E) (hP : ∀ s, P' s → P s) (hQ : ∀ a s, Q a s → Q' a s) (hE : ∀ s, E s → E' s) :
    Spec P' m Q' E' := by
  intro s hs
  have hspec := hm s (hP s hs)
  cases hrun : m.run s with
  | mk result s' =>
    rw [hrun] at hspec
    cases result with
    | ok a => exact hQ a s' hspec
    | error e => exact hE s' hspec

theorem Spec.of_fact {p : Prop} (hm : p → Spec P m Q E) : Spec (fun s => p ∧ P s) m Q E :=
  fun s hs => hm hs.1 s hs.2

/-- A loop: what holds after some rounds holds after one more, or the round fails. -/
theorem Spec.forM {ι : Type} {I : List ι → σ → Prop} {f : ι → Fallible σ ε PUnit} {l : List ι}
    (hround : ∀ done i, i ∈ l → Spec (I done) (f i) (fun _ => I (done ++ [i])) E) (done : List ι) :
    Spec (I done) (l.forM f) (fun _ => I (done ++ l)) E := by
  induction l generalizing done with
  | nil => exact Spec.pure (by simp)
  | cons i l ih =>
    change Spec (I done) (f i >>= fun _ => l.forM f) _ E
    refine (hround done i List.mem_cons_self).bind fun _ => ?_
    have hrest := ih (fun done j hj => hround done j (List.mem_cons_of_mem i hj)) (done ++ [i])
    rwa [List.append_assoc] at hrest

theorem Spec.ok (hm : Spec P m Q E) {s s' : σ} (hs : P s) {a : α} (hrun : m.run s = (.ok a, s')) : Q a s' := by
  have hspec := hm s hs
  rwa [hrun] at hspec

theorem Spec.error (hm : Spec P m Q E) {s s' : σ} (hs : P s) {e : ε} (hrun : m.run s = (.error e, s')) : E s' := by
  have hspec := hm s hs
  rwa [hrun] at hspec

/-! ### Without a state -/

theorem bind_eq_ok {x : Except ε α} {f : α → Except ε β} {b : β} :
    (x >>= f) = .ok b ↔ ∃ a, x = .ok a ∧ f a = .ok b := by
  cases x with
  | error e => exact iff_of_false nofun fun ⟨_, h, _⟩ => nomatch h
  | ok a =>
    constructor
    · intro h
      exact ⟨a, rfl, h⟩
    · rintro ⟨a', ha, h⟩
      cases ha
      exact h

theorem foldlM_ok {ι : Type} {f : α → ι → Except ε α} (I : List ι → α → Prop)
    (hstep : ∀ done i a b, I done a → f a i = .ok b → I (done ++ [i]) b) {l : List ι} (done : List ι) {a b : α}
    (ha : I done a) (hfold : l.foldlM f a = .ok b) : I (done ++ l) b := by
  induction l generalizing done a with
  | nil =>
    cases hfold
    rwa [List.append_nil]
  | cons i l ih =>
    rw [List.foldlM_cons] at hfold
    obtain ⟨a', ha', hrest⟩ := bind_eq_ok.mp hfold
    have hall := ih (done ++ [i]) (hstep done i a a' ha ha') hrest
    rwa [List.append_assoc] at hall

end Fallible
