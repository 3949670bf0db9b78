import Mathlib.Data.Option.Basic

/-!
# Machines

A machine has states and events; in a state an event is possible or not, and a possible one leads to one next state. A list of events is a run if each is possible when its turn comes. The rules carry an invariant along a run, where each step may be assumed to meet a condition on the state it is taken in.
-/

/-- In a state an event leads to at most one next state. -/
structure Machine (σ ε : Type) where
  step : σ → ε → Option σ

namespace Machine

variable {σ ε : Type} (M : Machine σ ε)

def run : σ → List ε → Option σ
  | s, [] => some s
  | s, e :: es => (M.step s e).bind fun s' => run s' es

/-- Every step of a run has the property. -/
def Each (P : σ → ε → σ → Prop) : σ → List ε → Prop
  | _, [] => True
  | s, e :: es => ∀ s', M.step s e = some s' → P s e s' ∧ Each P s' es

instance decidableEach (P : σ → ε → σ → Prop) [∀ s e s', Decidable (P s e s')] :
    (es : List ε) → (s : σ) → Decidable (M.Each P s es)
  | [], _ => isTrue trivial
  | e :: es, s =>
    match h : M.step s e with
    | none => isTrue fun _ hs' => nomatch h.symm.trans hs'
    | some s' =>
      have := decidableEach P es s'
      decidable_of_iff (P s e s' ∧ M.Each P s' es)
        ⟨fun hP _ ht => Option.some.inj (h.symm.trans ht) ▸ hP, fun hall => hall s' h⟩

variable {M}

@[simp] theorem run_nil (s : σ) : M.run s [] = some s := rfl

theorem run_cons_of_step {s s' : σ} {e : ε} (h : M.step s e = some s') (es : List ε) :
    M.run s (e :: es) = M.run s' es := by
  rw [run, h, Option.bind_some]

theorem run_cons_eq_some {s t : σ} {e : ε} {es : List ε} :
    M.run s (e :: es) = some t ↔ ∃ s', M.step s e = some s' ∧ M.run s' es = some t :=
  Option.bind_eq_some_iff

theorem run_append (s : σ) (es es' : List ε) :
    M.run s (es ++ es') = (M.run s es).bind fun t => M.run t es' := by
  induction es generalizing s with
  | nil => rfl
  | cons e es ih =>
    rw [List.cons_append, run, run]
    cases M.step s e with
    | none => rfl
    | some s' => exact ih s'

theorem run_append_of_run {s t : σ} {es : List ε} (h : M.run s es = some t) (es' : List ε) :
    M.run s (es ++ es') = M.run t es' := by
  rw [run_append, h, Option.bind_some]

variable {I : σ → Prop} {C P : σ → ε → σ → Prop}

/-- What every step keeps, if it meets the condition, holds at the end of a run whose steps meet it. -/
theorem run_keeps (hstep : ∀ s e s', I s → C s e s' → M.step s e = some s' → I s') {es : List ε} :
    ∀ {s t : σ}, I s → M.Each C s es → M.run s es = some t → I t := by
  induction es with
  | nil =>
    intro s t hs _ hrun
    rwa [← Option.some.inj hrun]
  | cons e es ih =>
    intro s t hs hC hrun
    obtain ⟨s', hs', hrun⟩ := run_cons_eq_some.mp hrun
    exact ih (hstep s e s' hs (hC s' hs').1 hs') (hC s' hs').2 hrun

theorem each_true (s : σ) (es : List ε) : M.Each (fun _ _ _ => True) s es := by
  induction es generalizing s with
  | nil => trivial
  | cons e es ih => exact fun s' _ => ⟨trivial, ih s'⟩

/-- What every step keeps holds at the end of a run. -/
theorem run_invariant (hstep : ∀ s e s', I s → M.step s e = some s' → I s') {es : List ε} {s t : σ} (hs : I s)
    (hrun : M.run s es = some t) : I t :=
  run_keeps (fun s e s' hI _ h => hstep s e s' hI h) hs (each_true s es) hrun

/-- The same invariant gives every step of such a run a property. -/
theorem each_of_keeps (hstep : ∀ s e s', I s → C s e s' → M.step s e = some s' → I s' ∧ P s e s')
    {es : List ε} : ∀ {s : σ}, I s → M.Each C s es → M.Each P s es := by
  induction es with
  | nil => exact fun _ _ => trivial
  | cons e es ih =>
    intro s hs hC s' hs'
    obtain ⟨hI, hP⟩ := hstep s e s' hs (hC s' hs').1 hs'
    exact ⟨hP, ih hI (hC s' hs').2⟩

/-- Under an invariant two properties of steps that mean the same hold of the same runs. -/
theorem each_iff_of_keeps {Q : σ → ε → σ → Prop}
    (hstep : ∀ s e s', I s → M.step s e = some s' → I s' ∧ (P s e s' ↔ Q s e s')) {es : List ε} :
    ∀ {s : σ}, I s → (M.Each P s es ↔ M.Each Q s es) := by
  induction es with
  | nil => exact fun _ => Iff.rfl
  | cons e es ih =>
    intro s hs
    refine forall₂_congr fun s' hs' => ?_
    obtain ⟨hI, hPQ⟩ := hstep s e s' hs hs'
    exact and_congr hPQ (ih hI)

/-- What holds in every state of a run, as far as it holds, is what a condition on each step says. -/
theorem each_state_iff {J : σ → Prop}
    (hstep : ∀ s e s', I s → J s → M.step s e = some s' → I s' ∧ (J s' ↔ C s e s')) {es : List ε} :
    ∀ {s : σ}, I s → J s → (M.Each (fun _ _ s' => J s') s es ↔ M.Each C s es) := by
  induction es with
  | nil => exact fun _ _ => Iff.rfl
  | cons e es ih =>
    intro s hI hJ
    refine forall₂_congr fun s' hs' => ?_
    obtain ⟨hI', hiff⟩ := hstep s e s' hI hJ hs'
    constructor
    · rintro ⟨hJ', hes⟩
      exact ⟨hiff.mp hJ', (ih hI' hJ').mp hes⟩
    · rintro ⟨hC, hes⟩
      exact ⟨hiff.mpr hC, (ih hI' (hiff.mpr hC)).mpr hes⟩

/-- What a step cannot bring back holds at the end of a run if it holds at the start and every step meets the condition, and only then. -/
theorem last_iff_each {J : σ → Prop}
    (hstep : ∀ s e s', I s → M.step s e = some s' → I s' ∧ (J s' ↔ J s ∧ C s e s')) {es : List ε} :
    ∀ {s t : σ}, I s → M.run s es = some t → (J t ↔ J s ∧ M.Each C s es) := by
  induction es with
  | nil =>
    intro s t _ hrun
    rw [← Option.some.inj hrun]
    exact (and_iff_left trivial).symm
  | cons e es ih =>
    intro s t hI hrun
    obtain ⟨s', hs', hrun⟩ := run_cons_eq_some.mp hrun
    obtain ⟨hI', hiff⟩ := hstep s e s' hI hs'
    rw [ih hI' hrun, hiff, and_assoc]
    refine and_congr_right fun _ => ⟨fun h t' ht' => ?_, fun h => h s' hs'⟩
    rw [hs'] at ht'
    cases ht'
    exact h

/-- If a state that is not at the goal can take steps of a kind that lower a measure, steps of the kind lead to the goal. -/
theorem exists_run_of_measure {D : σ → Prop} {E : ε → Prop} (m : σ → Nat)
    (h : ∀ s, I s → ¬D s → ∃ es s', (∀ e ∈ es, E e) ∧ M.run s es = some s' ∧ I s' ∧ m s' < m s) (s : σ) (hs : I s) :
    ∃ es t, (∀ e ∈ es, E e) ∧ M.run s es = some t ∧ I t ∧ D t := by
  induction hm : m s using Nat.strongRecOn generalizing s with
  | ind n ih =>
    by_cases hD : D s
    · exact ⟨[], s, List.forall_mem_nil E, rfl, hs, hD⟩
    · obtain ⟨es, s', hes, hrun, hs', hlt⟩ := h s hs hD
      obtain ⟨es', t, hes', hrun', ht⟩ := ih (m s') (hm ▸ hlt) s' hs' rfl
      refine ⟨es ++ es', t, ?_, (run_append_of_run hrun es').trans hrun', ht⟩
      exact List.forall_mem_append.mpr ⟨hes, hes'⟩

/-- The states and the events of a run that does not end. -/
def Forever (M : Machine σ ε) (s : σ) (f : Nat → σ) (e : Nat → ε) : Prop :=
  f 0 = s ∧ ∀ n, M.step (f n) (e n) = some (f (n + 1))

/-- If no event raises a measure, those that lower it come only so often. -/
theorem Forever.not_often {E K : ε → Prop} {m : σ → Nat} {s : σ} {f : Nat → σ} {e : Nat → ε}
    (hstep : ∀ s e s', I s → E e → M.step s e = some s' → I s' ∧ m s' ≤ m s ∧ (K e → m s' < m s)) (hs : I s)
    (h : M.Forever s f e) (hE : ∀ n, E (e n)) : ¬∀ n, ∃ k, n ≤ k ∧ K (e k) := by
  induction hm : m s using Nat.strongRecOn generalizing s f e with
  | ind n ih =>
    intro hoften
    have hkept : ∀ k, I (f k) ∧ m (f k) ≤ m s := by
      intro k
      induction k with
      | zero => rw [h.1]; exact ⟨hs, Nat.le_refl _⟩
      | succ k ih =>
        obtain ⟨hI, hle, -⟩ := hstep _ _ _ ih.1 (hE k) (h.2 k)
        exact ⟨hI, Nat.le_trans hle ih.2⟩
    obtain ⟨k, -, hk⟩ := hoften 0
    obtain ⟨hI, -, hlt⟩ := hstep _ _ _ (hkept k).1 (hE k) (h.2 k)
    -- Behind such an event the rest of the run begins with a lower measure.
    refine ih (m (f (k + 1))) (hm ▸ Nat.lt_of_lt_of_le (hlt hk) (hkept k).2) hI (f := fun n => f (k + 1 + n))
      (e := fun n => e (k + 1 + n)) ⟨rfl, fun n => h.2 (k + 1 + n)⟩ (fun n => hE _) rfl fun n => ?_
    obtain ⟨l, hl, hKl⟩ := hoften (k + 1 + n)
    refine ⟨l - (k + 1), by omega, ?_⟩
    rwa [Nat.add_sub_cancel' (by omega)]

theorem each_of_forall {es : List ε} (h : ∀ e ∈ es, ∀ s s', P s e s') : ∀ {s : σ}, M.Each P s es := by
  induction es with
  | nil => exact trivial
  | cons e es ih =>
    intro s s' _
    exact ⟨h e List.mem_cons_self s s', ih fun e' he' => h e' (List.mem_cons_of_mem _ he')⟩

theorem each_cons_of_step {s s' : σ} {e : ε} {es : List ε} (hstep : M.step s e = some s') :
    M.Each P s (e :: es) ↔ P s e s' ∧ M.Each P s' es := by
  constructor
  · exact fun h => h s' hstep
  · intro h t ht
    rw [hstep] at ht
    cases ht
    exact h

theorem each_append_of_run {es es' : List ε} : ∀ {s t : σ}, M.run s es = some t →
    (M.Each P s (es ++ es') ↔ M.Each P s es ∧ M.Each P t es') := by
  induction es with
  | nil =>
    intro s t hrun
    obtain rfl := Option.some.inj hrun
    exact (iff_of_eq (true_and _)).symm
  | cons e es ih =>
    intro s t hrun
    obtain ⟨s', hs', hrun⟩ := run_cons_eq_some.mp hrun
    rw [List.cons_append, each_cons_of_step hs', each_cons_of_step hs', ih hrun, and_assoc]

theorem Each.and {es : List ε} : ∀ {s : σ}, M.Each C s es → M.Each P s es →
    M.Each (fun s e s' => C s e s' ∧ P s e s') s es := by
  induction es with
  | nil => exact fun _ _ => trivial
  | cons e es ih =>
    intro s hC hP s' hs'
    exact ⟨⟨(hC s' hs').1, (hP s' hs').1⟩, ih (hC s' hs').2 (hP s' hs').2⟩

/-- What every step of a run has, each of its steps has. -/
theorem Each.last {es es' : List ε} {e : ε} {s t t' : σ} (h : M.Each P s (es ++ e :: es'))
    (hrun : M.run s es = some t) (hstep : M.step t e = some t') : P t e t' :=
  ((each_cons_of_step hstep).mp ((each_append_of_run hrun).mp h).2).1

/-- What a run reaches and did not start with, one of its steps reached first. -/
theorem exists_first_step {J : σ → Prop} {es : List ε} :
    ∀ {s t : σ}, ¬J s → M.run s es = some t → J t →
      ∃ es₁ e es₂ m m', es = es₁ ++ e :: es₂ ∧ M.run s es₁ = some m ∧ ¬J m ∧ M.step m e = some m' ∧ J m' ∧
        M.run m' es₂ = some t := by
  induction es with
  | nil =>
    intro s t hs hrun ht
    rw [← Option.some.inj hrun] at ht
    exact absurd ht hs
  | cons e es ih =>
    intro s t hs hrun ht
    obtain ⟨s', hs', hrun⟩ := run_cons_eq_some.mp hrun
    by_cases hJ : J s'
    · exact ⟨[], e, es, s, s', rfl, rfl, hs, hs', hJ, hrun⟩
    · obtain ⟨es₁, e', es₂, m, m', rfl, hrun₁, hm, hstep, hm', hrun₂⟩ := ih hJ hrun ht
      exact ⟨e :: es₁, e', es₂, m, m', rfl, (run_cons_of_step hs' es₁).trans hrun₁, hm, hstep, hm', hrun₂⟩

end Machine
