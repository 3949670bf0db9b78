import Mathlib.Logic.Relation

/-!
# Processes over a shared state

A process is a tree of atomic steps on a shared state: a step changes the state and chooses how to go on from the state it found. Several processes over one state can be interleaved step by step, and a process run alone is an ordinary state-passing function. Two proof notions go with it. `Within` bounds what each step of one process does, whatever other processes do in between, and `Sim` relates two processes step by step; both go through `bind`, so a long process is judged from its parts.
-/

/-- A process over shared states of type `σ` that returns an `α`. -/
inductive Proc (σ : Type) (α : Type) : Type where
  | ret (a : α)
  | step (act : σ → σ) (next : σ → Proc σ α)

namespace Proc

variable {σ τ α β γ δ : Type}

/-! ### Building and running processes -/

protected def bind : Proc σ α → (α → Proc σ β) → Proc σ β
  | ret a, f => f a
  | step act next, f => step act fun s => (next s).bind f

instance : Monad (Proc σ) where
  pure := ret
  bind := Proc.bind

/-- One atomic step that may read and change the state. -/
def atomic (f : σ → α × σ) : Proc σ α :=
  step (fun s => (f s).2) fun s => ret (f s).1

/-- Run a process alone, from a state, to its end. -/
def run : Proc σ α → σ → α × σ
  | ret a, s => (a, s)
  | step act next, s => (next s).run (act s)

@[simp] theorem pure_eq (a : α) : (pure a : Proc σ α) = ret a := rfl

@[simp] theorem ret_bind (a : α) (f : α → Proc σ β) : (ret a >>= f) = f a := rfl

@[simp] theorem step_bind (act : σ → σ) (next : σ → Proc σ α) (f : α → Proc σ β) :
    (step act next >>= f) = step act fun s => next s >>= f := rfl

theorem bind_ret (p : Proc σ α) : p >>= ret = p := by
  induction p with
  | ret a => rfl
  | step act next ih =>
    rw [step_bind]
    exact congrArg (step act) (funext ih)

theorem bind_assoc (p : Proc σ α) (f : α → Proc σ β) (g : β → Proc σ γ) :
    p >>= f >>= g = p >>= fun a => f a >>= g := by
  induction p with
  | ret a => rfl
  | step act next ih =>
    rw [step_bind, step_bind, step_bind]
    exact congrArg (step act) (funext ih)

instance : LawfulMonad (Proc σ) :=
  LawfulMonad.mk' (Proc σ) (fun p => bind_ret p) (fun _ _ => rfl) bind_assoc

@[simp] theorem run_ret (a : α) (s : σ) : (ret a).run s = (a, s) := rfl

@[simp] theorem run_step (act : σ → σ) (next : σ → Proc σ α) (s : σ) :
    (step act next).run s = (next s).run (act s) := rfl

@[simp] theorem run_atomic (f : σ → α × σ) (s : σ) : (atomic f).run s = f s := rfl

@[simp] theorem run_bind (p : Proc σ α) (f : α → Proc σ β) (s : σ) :
    (p >>= f).run s = (f (p.run s).1).run (p.run s).2 := by
  induction p generalizing s with
  | ret a => rfl
  | step act next ih => exact ih s (act s)

@[simp] theorem run_map (p : Proc σ α) (f : α → β) (s : σ) :
    (f <$> p).run s = (f (p.run s).1, (p.run s).2) := by
  rw [map_eq_pure_bind, run_bind]
  rfl

/-! ### One way through a process

Other processes may change the state between any two steps, so what a process finds at its steps can be any list of states. -/

/-- A process comes to a result when it finds these states at its steps. -/
inductive Path : Proc σ α → List σ → α → Prop
  | ret (a : α) : Path (ret a) [] a
  | step {act : σ → σ} {next : σ → Proc σ α} {s : σ} {ss : List σ} {a : α} (h : Path (next s) ss a) :
      Path (step act next) (s :: ss) a

theorem Path.atomic_bind {f : σ → α × σ} {k : α → Proc σ β} {ss : List σ} {b : β}
    (h : Path (atomic f >>= k) ss b) : ∃ s ss', ss = s :: ss' ∧ Path (k (f s).1) ss' b := by
  cases h with
  | step h => exact ⟨_, _, rfl, h⟩

/-- The states a process finds at its steps when it runs alone. -/
def trace : Proc σ α → σ → List σ
  | ret _, _ => []
  | step act next, s => s :: (next s).trace (act s)

theorem path_trace (p : Proc σ α) (s : σ) : Path p (p.trace s) (p.run s).1 := by
  induction p generalizing s with
  | ret a => exact .ret a
  | step act next ih => exact .step (ih s (act s))

/-! ### What one process does

`I` is what every process keeps, so it may be assumed before each step, whoever moved last. `G` is what one step of this process guarantees. -/

section Within

variable {I : σ → Prop} {G G' : σ → σ → Prop} {Q Q' : α → Prop}

/-- From any state in `I`, each step of the process is in `G`, and the result satisfies `Q`. -/
def Within (I : σ → Prop) (G : σ → σ → Prop) (Q : α → Prop) : Proc σ α → Prop
  | ret a => Q a
  | step act next => ∀ s, I s → G s (act s) ∧ (next s).Within I G Q

@[simp] theorem within_ret {a : α} : (ret a : Proc σ α).Within I G Q ↔ Q a := Iff.rfl

@[simp] theorem within_step {act : σ → σ} {next : σ → Proc σ α} :
    (step act next).Within I G Q ↔ ∀ s, I s → G s (act s) ∧ (next s).Within I G Q := Iff.rfl

theorem within_atomic {f : σ → α × σ} :
    (atomic f).Within I G Q ↔ ∀ s, I s → G s (f s).2 ∧ Q (f s).1 := Iff.rfl

theorem Within.mono {p : Proc σ α} (hp : p.Within I G Q)
    (hG : ∀ s t, I s → G s t → G' s t) (hQ : ∀ a, Q a → Q' a) : p.Within I G' Q' := by
  induction p with
  | ret a => exact hQ a hp
  | step act next ih =>
    intro s hs
    exact ⟨hG s (act s) hs (hp s hs).1, ih s (hp s hs).2⟩

theorem Within.and {p : Proc σ α} (hp : p.Within I G Q) (hp' : p.Within I G' Q') :
    p.Within I (fun s t => G s t ∧ G' s t) (fun a => Q a ∧ Q' a) := by
  induction p with
  | ret a => exact ⟨hp, hp'⟩
  | step act next ih =>
    intro s hs
    exact ⟨⟨(hp s hs).1, (hp' s hs).1⟩, ih s (hp s hs).2 (hp' s hs).2⟩

theorem Within.bind {p : Proc σ α} {f : α → Proc σ β} {R : β → Prop}
    (hp : p.Within I G Q) (hf : ∀ a, Q a → (f a).Within I G R) : (p >>= f).Within I G R := by
  induction p with
  | ret a => exact hf a hp
  | step act next ih =>
    intro s hs
    exact ⟨(hp s hs).1, ih s (hp s hs).2⟩

/-- A process whose steps keep `I`, run alone from `I`, stays in `I` and ends in `Q`. -/
theorem Within.run {p : Proc σ α} (hp : p.Within I G Q) (hI : ∀ s t, I s → G s t → I t)
    {s : σ} (hs : I s) : Q (p.run s).1 ∧ I (p.run s).2 := by
  induction p generalizing s with
  | ret a => exact ⟨hp, hs⟩
  | step act next ih =>
    have hstep := hp s hs
    exact ih s hstep.2 (hI s (act s) hs hstep.1)

end Within

/-! ### Two processes in step

The relation `R` is kept by each pair of steps, from states whose left one is in `I`. -/

section Sim

variable {I : σ → Prop} {R : σ → τ → Prop} {S S' : α → β → Prop}

/-- The two processes take their steps together: from states related by `R` each pair of steps leads to states related by `R`, and the results are related by `S`. -/
def Sim (I : σ → Prop) (R : σ → τ → Prop) (S : α → β → Prop) : Proc σ α → Proc τ β → Prop
  | ret a, ret b => S a b
  | step act next, step act' next' =>
    ∀ s t, I s → R s t → R (act s) (act' t) ∧ (next s).Sim I R S (next' t)
  | _, _ => False

@[simp] theorem sim_ret {a : α} {b : β} :
    (ret a : Proc σ α).Sim I R S (ret b : Proc τ β) ↔ S a b := Iff.rfl

theorem sim_step {act : σ → σ} {next : σ → Proc σ α} {act' : τ → τ} {next' : τ → Proc τ β} :
    (step act next).Sim I R S (step act' next') ↔
      ∀ s t, I s → R s t → R (act s) (act' t) ∧ (next s).Sim I R S (next' t) := Iff.rfl

theorem not_sim_ret_step {a : α} {act' : τ → τ} {next' : τ → Proc τ β} :
    ¬(ret a : Proc σ α).Sim I R S (step act' next') := False.elim

theorem not_sim_step_ret {act : σ → σ} {next : σ → Proc σ α} {b : β} :
    ¬(step act next).Sim I R S (ret b : Proc τ β) := False.elim

theorem sim_atomic {f : σ → α × σ} {g : τ → β × τ}
    (h : ∀ s t, I s → R s t → S (f s).1 (g t).1 ∧ R (f s).2 (g t).2) :
    (atomic f).Sim I R S (atomic g) := by
  rw [atomic, atomic, sim_step]
  intro s t hs hst
  exact ⟨(h s t hs hst).2, sim_ret.mpr (h s t hs hst).1⟩

theorem Sim.mono {p : Proc σ α} {q : Proc τ β} (h : p.Sim I R S q)
    (hS : ∀ a b, S a b → S' a b) : p.Sim I R S' q := by
  induction p generalizing q with
  | ret a =>
    cases q with
    | ret b => exact sim_ret.mpr (hS a b (sim_ret.mp h))
    | step act' next' => exact absurd h not_sim_ret_step
  | step act next ih =>
    cases q with
    | ret b => exact absurd h not_sim_step_ret
    | step act' next' =>
      rw [sim_step] at h ⊢
      intro s t hs hst
      exact ⟨(h s t hs hst).1, ih s (h s t hs hst).2⟩

theorem Sim.bind {p : Proc σ α} {q : Proc τ β} {f : α → Proc σ γ} {g : β → Proc τ δ}
    {T : γ → δ → Prop} (h : p.Sim I R S q) (hfg : ∀ a b, S a b → (f a).Sim I R T (g b)) :
    (p >>= f).Sim I R T (q >>= g) := by
  induction p generalizing q with
  | ret a =>
    cases q with
    | ret b => exact hfg a b (sim_ret.mp h)
    | step act' next' => exact absurd h not_sim_ret_step
  | step act next ih =>
    cases q with
    | ret b => exact absurd h not_sim_step_ret
    | step act' next' =>
      rw [step_bind, step_bind, sim_step]
      rw [sim_step] at h
      intro s t hs hst
      exact ⟨(h s t hs hst).1, ih s (h s t hs hst).2⟩

theorem Within.sim_map {I : σ → Prop} {G : σ → σ → Prop} {Q : α → Prop} {S : α → β → Prop} {p : Proc σ α}
    {f : α → β} (h : p.Within I G Q) (hS : ∀ a, Q a → S a (f a)) :
    p.Sim I Eq S (p >>= fun a => ret (f a)) := by
  induction p with
  | ret a => exact sim_ret.mpr (hS a h)
  | step act next ih =>
    rw [step_bind, sim_step]
    rintro s t hs rfl
    exact ⟨rfl, ih s (h s hs).2⟩

/-- What is known of the results of one of two processes in step. -/
theorem Sim.within {G : σ → σ → Prop} {Q : α → Prop} {p : Proc σ α} {q : Proc τ β} (h : p.Sim I R S q)
    (hp : p.Within I G Q) : p.Sim I R (fun a b => S a b ∧ Q a) q := by
  induction p generalizing q with
  | ret a =>
    cases q with
    | ret b => exact sim_ret.mpr ⟨sim_ret.mp h, hp⟩
    | step act' next' => exact absurd h not_sim_ret_step
  | step act next ih =>
    cases q with
    | ret b => exact absurd h not_sim_step_ret
    | step act' next' =>
      rw [sim_step] at h ⊢
      intro s t hs hst
      exact ⟨(h s t hs hst).1, ih s (h s t hs hst).2 (hp s hs).2⟩

theorem Sim.eq {p q : Proc σ α} (h : p.Sim (fun _ => True) Eq Eq q) : p = q := by
  induction p generalizing q with
  | ret a =>
    cases q with
    | ret b => exact congrArg ret (sim_ret.mp h)
    | step act' next' => exact absurd h not_sim_ret_step
  | step act next ih =>
    cases q with
    | ret b => exact absurd h not_sim_step_ret
    | step act' next' =>
      rw [sim_step] at h
      have hact : act = act' := funext fun s => (h s s trivial rfl).1
      have hnext : next = next' := funext fun s => ih s (h s s trivial rfl).2
      rw [hact, hnext]

/-- Processes in step, run alone from related states, end in related states with related results. -/
theorem Sim.run {p : Proc σ α} {q : Proc τ β} (h : p.Sim (fun _ => True) R S q) {s : σ} {t : τ}
    (hst : R s t) : S (p.run s).1 (q.run t).1 ∧ R (p.run s).2 (q.run t).2 := by
  induction p generalizing q s t with
  | ret a =>
    cases q with
    | ret b => exact ⟨sim_ret.mp h, hst⟩
    | step act' next' => exact absurd h not_sim_ret_step
  | step act next ih =>
    cases q with
    | ret b => exact absurd h not_sim_step_ret
    | step act' next' =>
      rw [sim_step] at h
      exact ih s (h s t trivial hst).2 (h s t trivial hst).1

end Sim

end Proc
