import Lazydns.Lib.Proc
import Mathlib.Data.List.Forall2
import Mathlib.Logic.Function.Basic

/-!
# Jobs side by side

A service starts jobs, and each job is a process over the shared state. A pool holds the jobs that were started; events start a job, let one take a step, cancel one, or change the state from outside, which may start a job too. A list of events is one interleaving, and every theorem is about all of them.

Three rules are proved once. What each job and each outside change keep, every run keeps. A property that a process hands on to what is left of it is one of all jobs of a run. And jobs whose steps nobody can tell from no step can be deleted from a run: all others go on as before.
-/

/-- What jobs do, what is left to do when one is cancelled, and what else changes the state. -/
structure Service (σ τ ε α : Type) where
  body : τ → Proc σ α
  cancelled : τ → Proc σ α
  outside : ε → σ → Option τ × σ

/-- The shared state, and each job with what it still has to do. -/
structure Pool (ι σ τ α : Type) where
  shared : σ
  jobs : ι → Option (τ × Proc σ α)

/-- An outside change names the job it may start. -/
inductive Event (ι τ ε : Type) where
  | start (i : ι) (t : τ)
  | run (i : ι)
  | cancel (i : ι)
  | outside (i : ι) (e : ε)

variable {ι σ τ ε α : Type}

def Event.job : Event ι τ ε → ι
  | start i _ => i
  | run i => i
  | cancel i => i
  | outside i _ => i

namespace Pool

def init (s : σ) : Pool ι σ τ α := ⟨s, fun _ => none⟩

def result (P : Pool ι σ τ α) (i : ι) : Option α :=
  match P.jobs i with
  | some (_, .ret a) => some a
  | _ => none

theorem result_eq_some {P : Pool ι σ τ α} {i : ι} {a : α} :
    P.result i = some a ↔ ∃ t, P.jobs i = some (t, .ret a) := by
  rw [result]
  constructor
  · intro h
    split at h
    · rename_i t a' hjob
      cases h
      exact ⟨t, hjob⟩
    · cases h
  · rintro ⟨t, hjob⟩
    rw [hjob]

variable [DecidableEq ι]

def setJob (P : Pool ι σ τ α) (i : ι) (job : Option (τ × Proc σ α)) : Pool ι σ τ α :=
  { P with jobs := Function.update P.jobs i job }

/-- One event. An event about a job that cannot take it changes nothing. -/
def step (S : Service σ τ ε α) (P : Pool ι σ τ α) : Event ι τ ε → Pool ι σ τ α
  | .start i t =>
    match P.jobs i with
    | none => P.setJob i (some (t, S.body t))
    | some _ => P
  | .run i =>
    match P.jobs i with
    | some (t, .step act next) => { P.setJob i (some (t, next P.shared)) with shared := act P.shared }
    | _ => P
  | .cancel i =>
    match P.jobs i with
    | some (t, .step _ _) => P.setJob i (some (t, S.cancelled t))
    | _ => P
  | .outside i e =>
    match P.jobs i with
    | none =>
      { P.setJob i ((S.outside e P.shared).1.map fun t => (t, S.body t)) with
        shared := (S.outside e P.shared).2 }
    | some _ => P

def run (S : Service σ τ ε α) (P : Pool ι σ τ α) (events : List (Event ι τ ε)) : Pool ι σ τ α :=
  events.foldl (step S) P

@[simp] theorem run_nil (S : Service σ τ ε α) (P : Pool ι σ τ α) : P.run S [] = P := rfl

@[simp] theorem run_cons (S : Service σ τ ε α) (P : Pool ι σ τ α) (event : Event ι τ ε)
    (events : List (Event ι τ ε)) : P.run S (event :: events) = (P.step S event).run S events := rfl

theorem run_append (S : Service σ τ ε α) (P : Pool ι σ τ α) (events events' : List (Event ι τ ε)) :
    P.run S (events ++ events') = (P.run S events).run S events' := List.foldl_append ..

section

variable (P : Pool ι σ τ α) (i : ι) (job : Option (τ × Proc σ α))

@[simp] theorem setJob_shared : (P.setJob i job).shared = P.shared := rfl
@[simp] theorem setJob_jobs_self : (P.setJob i job).jobs i = job := Function.update_self ..

theorem setJob_jobs_of_ne {j : ι} (h : j ≠ i) : (P.setJob i job).jobs j = P.jobs j :=
  Function.update_of_ne h ..

end

/-- A job that nothing interrupts ends as its process does when it is run alone. -/
theorem exists_run_alone (S : Service σ τ ε α) {P : Pool ι σ τ α} {i : ι} {t : τ} {p : Proc σ α}
    (hjob : P.jobs i = some (t, p)) :
    ∃ n, (P.run S (List.replicate n (.run i))).jobs i = some (t, .ret (p.run P.shared).1) ∧
      (P.run S (List.replicate n (.run i))).shared = (p.run P.shared).2 := by
  induction p generalizing P with
  | ret a => exact ⟨0, hjob, rfl⟩
  | step act next ih =>
    have hstep : P.step S (.run i) =
        { P.setJob i (some (t, next P.shared)) with shared := act P.shared } := by
      rw [step, hjob]
    have hjob' : (P.step S (.run i)).jobs i = some (t, next P.shared) := by
      rw [hstep]
      exact setJob_jobs_self P i _
    obtain ⟨n, hend, hshared⟩ := ih P.shared hjob'
    rw [hstep] at hend hshared
    refine ⟨n + 1, ?_, ?_⟩
    · rw [List.replicate_succ, run_cons, hstep]
      exact hend
    · rw [List.replicate_succ, run_cons, hstep]
      exact hshared

theorem exists_start_run_alone (S : Service σ τ ε α) (i : ι) (t : τ) (s : σ) :
    ∃ events : List (Event ι τ ε), ((init s : Pool ι σ τ α).run S (.start i t :: events)).jobs i =
        some (t, .ret ((S.body t).run s).1) ∧
      ((init s : Pool ι σ τ α).run S (.start i t :: events)).shared = ((S.body t).run s).2 := by
  have hjob : ((init s : Pool ι σ τ α).step S (.start i t)).jobs i = some (t, S.body t) :=
    setJob_jobs_self _ _ _
  obtain ⟨n, hend⟩ := exists_run_alone S hjob
  exact ⟨_, hend⟩

/-! ### Invariants -/

section

variable {I : σ → Prop} {T : τ → Prop} {Q : τ → α → Prop} {S : Service σ τ ε α}

/-- The state is in `I`, and each job is one of `T` that keeps `I` and will end in `Q`. -/
structure Holds (I : σ → Prop) (T : τ → Prop) (Q : τ → α → Prop) (P : Pool ι σ τ α) : Prop where
  shared : I P.shared
  jobs : ∀ i t p, P.jobs i = some (t, p) → T t ∧ p.Within I (fun _ s => I s) (Q t)

omit [DecidableEq ι] in
theorem holds_init {s : σ} (hs : I s) : (init s : Pool ι σ τ α).Holds I T Q where
  shared := hs
  jobs := fun _ _ _ h => nomatch h

theorem Holds.setJob {P : Pool ι σ τ α} (h : P.Holds I T Q) {i : ι} {job : Option (τ × Proc σ α)}
    (hjob : ∀ t p, job = some (t, p) → T t ∧ p.Within I (fun _ s => I s) (Q t)) {s : σ} (hs : I s) :
    ({ P.setJob i job with shared := s } : Pool ι σ τ α).Holds I T Q where
  shared := hs
  jobs := fun j t p hj => by
    by_cases hji : j = i
    · subst hji
      exact hjob t p ((setJob_jobs_self P j job).symm.trans hj)
    · exact h.jobs j t p ((setJob_jobs_of_ne P i job hji).symm.trans hj)

end

end Pool

/-- The jobs of `T`, and all changes from outside, keep `I`; the jobs end in `Q`. -/
structure Service.Keeps (S : Service σ τ ε α) (I : σ → Prop) (T : τ → Prop) (Q : τ → α → Prop) :
    Prop where
  body : ∀ t, T t → (S.body t).Within I (fun _ s => I s) (Q t)
  cancelled : ∀ t, T t → (S.cancelled t).Within I (fun _ s => I s) (Q t)
  outside : ∀ e s, I s → I (S.outside e s).2 ∧ ∀ t, (S.outside e s).1 = some t → T t

namespace Pool

variable [DecidableEq ι] {I : σ → Prop} {T : τ → Prop} {Q : τ → α → Prop} {S : Service σ τ ε α}

theorem step_holds (hS : S.Keeps I T Q) {event : Event ι τ ε}
    (hstart : ∀ i t, event = .start i t → T t) {P : Pool ι σ τ α} (h : P.Holds I T Q) :
    (P.step S event).Holds I T Q := by
  cases event with
  | start i t =>
    rw [step]
    split
    · refine h.setJob (fun t' p hjob => ?_) h.shared
      cases hjob
      exact ⟨hstart i t rfl, hS.body t (hstart i t rfl)⟩
    · exact h
  | run i =>
    rw [step]
    split
    · rename_i t act next hjob
      have hp := h.jobs i t _ hjob
      refine h.setJob (fun t' p hjob' => ?_) (hp.2 P.shared h.shared).1
      cases hjob'
      exact ⟨hp.1, (hp.2 P.shared h.shared).2⟩
    · exact h
  | cancel i =>
    rw [step]
    split
    · rename_i t act next hjob
      refine h.setJob (fun t' p hjob' => ?_) h.shared
      cases hjob'
      exact ⟨(h.jobs i t _ hjob).1, hS.cancelled t (h.jobs i t _ hjob).1⟩
    · exact h
  | outside i e =>
    rw [step]
    split
    · have hout := hS.outside e P.shared h.shared
      refine h.setJob (fun t p hjob => ?_) hout.1
      obtain ⟨t', ht', heq⟩ := Option.map_eq_some_iff.mp hjob
      cases heq
      exact ⟨hout.2 t ht', hS.body t (hout.2 t ht')⟩
    · exact h

/-- What the jobs and the outside keep holds after every run. -/
theorem run_holds (hS : S.Keeps I T Q) {events : List (Event ι τ ε)}
    (hstart : ∀ i t, .start i t ∈ events → T t) {P : Pool ι σ τ α} (h : P.Holds I T Q) :
    (P.run S events).Holds I T Q := by
  induction events generalizing P with
  | nil => exact h
  | cons event events ih =>
    refine ih (fun i t hmem => hstart i t (List.mem_cons_of_mem _ hmem)) (step_holds hS ?_ h)
    rintro i t rfl
    exact hstart i t List.mem_cons_self

omit [DecidableEq ι] in
theorem Holds.result {P : Pool ι σ τ α} (h : P.Holds I T Q) {i : ι} {t : τ} {a : α}
    (hjob : P.jobs i = some (t, .ret a)) : Q t a :=
  (h.jobs i t _ hjob).2

/-! ### What is left to do -/

section

variable {V : Proc σ α → Prop}

def JobsIn (V : Proc σ α → Prop) (P : Pool ι σ τ α) : Prop := ∀ i t p, P.jobs i = some (t, p) → V p

theorem JobsIn.setJob {P : Pool ι σ τ α} (h : P.JobsIn V) (i : ι) {job : Option (τ × Proc σ α)}
    (hjob : ∀ t p, job = some (t, p) → V p) : (P.setJob i job).JobsIn V := by
  intro j t p hj
  by_cases hji : j = i
  · subst hji
    exact hjob t p ((setJob_jobs_self P j job).symm.trans hj)
  · exact h j t p ((setJob_jobs_of_ne P i job hji).symm.trans hj)

/-- Jobs that start in `V`, and hand `V` on with each step, are in `V` throughout. -/
theorem jobsIn_run (hbody : ∀ t, V (S.body t)) (hcancelled : ∀ t, V (S.cancelled t))
    (hstep : ∀ act next s, V (.step act next) → V (next s)) {events : List (Event ι τ ε)}
    {P : Pool ι σ τ α} (h : P.JobsIn V) : (P.run S events).JobsIn V := by
  induction events generalizing P with
  | nil => exact h
  | cons event events ih =>
    refine ih ?_
    cases event with
    | start i t =>
      rw [step]
      split
      · refine h.setJob i fun t' p hjob => ?_
        cases hjob
        exact hbody t
      · exact h
    | run i =>
      rw [step]
      split
      · rename_i t act next hjob
        refine JobsIn.setJob h i fun t' p hjob' => ?_
        cases hjob'
        exact hstep act next P.shared (h i t _ hjob)
      · exact h
    | cancel i =>
      rw [step]
      split
      · rename_i t act next hjob
        refine h.setJob i fun t' p hjob' => ?_
        cases hjob'
        exact hcancelled t
      · exact h
    | outside i e =>
      rw [step]
      split
      · refine JobsIn.setJob h i fun t p hjob => ?_
        obtain ⟨t', -, heq⟩ := Option.map_eq_some_iff.mp hjob
        cases heq
        exact hbody t
      · exact h

end

/-! ### Along a run -/

/-- `C` holds of every event of a run, in the pool the event meets. -/
def Along (S : Service σ τ ε α) (C : Pool ι σ τ α → Event ι τ ε → Prop) :
    Pool ι σ τ α → List (Event ι τ ε) → Prop
  | _, [] => True
  | P, event :: events => C P event ∧ Along S C (P.step S event) events

section

variable {C C' : Pool ι σ τ α → Event ι τ ε → Prop} {P : Pool ι σ τ α}

theorem along_of_forall (S : Service σ τ ε α) (h : ∀ P event, C P event) (P : Pool ι σ τ α)
    (events : List (Event ι τ ε)) : Along S C P events := by
  induction events generalizing P with
  | nil => trivial
  | cons event events ih => exact ⟨h P event, ih _⟩

theorem Along.mono (himp : ∀ P event, C P event → C' P event) {events : List (Event ι τ ε)}
    (h : P.Along S C events) : P.Along S C' events := by
  induction events generalizing P with
  | nil => trivial
  | cons event events ih => exact ⟨himp P event h.1, ih h.2⟩

theorem Along.and {events : List (Event ι τ ε)} (h : P.Along S C events) (h' : P.Along S C' events) :
    P.Along S (fun P event => C P event ∧ C' P event) events := by
  induction events generalizing P with
  | nil => trivial
  | cons event events ih => exact ⟨⟨h.1, h'.1⟩, ih h.2 h'.2⟩

end

/-- The step that an event lets a job in `gone` take looks like no step to the states related by `R`. -/
def Silent (R : σ → σ → Prop) (gone : ι → Prop) (P : Pool ι σ τ α) (event : Event ι τ ε) : Prop :=
  ∀ i t act next, event = .run i → gone i → P.jobs i = some (t, .step act next) →
    ∀ s, R P.shared s → R (act P.shared) s

end Pool

/-! ### Two runs -/

inductive Event.Rel (T : τ → τ → Prop) : Event ι τ ε → Event ι τ ε → Prop
  | start {i : ι} {t t' : τ} (h : T t t') : Rel T (.start i t) (.start i t')
  | run (i : ι) : Rel T (.run i) (.run i)
  | cancel (i : ι) : Rel T (.cancel i) (.cancel i)
  | outside (i : ι) (e : ε) : Rel T (.outside i e) (.outside i e)

/-- The second list is the first one without the events of the jobs in `gone`, up to related jobs. -/
inductive Event.Purge (gone : ι → Prop) (T : τ → τ → Prop) :
    List (Event ι τ ε) → List (Event ι τ ε) → Prop
  | nil : Purge gone T [] []
  | keep {event event' : Event ι τ ε} {events events' : List (Event ι τ ε)} (hjob : ¬ gone event.job)
      (h : event.Rel T event') (hrest : Purge gone T events events') :
      Purge gone T (event :: events) (event' :: events')
  | drop {event : Event ι τ ε} {events events' : List (Event ι τ ε)} (hjob : gone event.job)
      (hout : ∀ i e, event ≠ .outside i e) (hrest : Purge gone T events events') :
      Purge gone T (event :: events) events'

theorem Event.purge_filter {gone : ι → Prop} [DecidablePred gone] {T : τ → τ → Prop}
    {events : List (Event ι τ ε)} (hstart : ∀ i t, .start i t ∈ events → ¬ gone i → T t t)
    (hout : ∀ i e, .outside i e ∈ events → ¬ gone i) :
    Event.Purge gone T events (events.filter fun event => ¬ gone event.job) := by
  induction events with
  | nil => exact .nil
  | cons event events ih =>
    have hrest := ih (fun i t hmem => hstart i t (List.mem_cons_of_mem _ hmem))
      fun i e hmem => hout i e (List.mem_cons_of_mem _ hmem)
    by_cases hgone : gone event.job
    · rw [List.filter_cons_of_neg (by simpa using hgone)]
      refine .drop hgone ?_ hrest
      rintro i e rfl
      exact hout i e List.mem_cons_self hgone
    · rw [List.filter_cons_of_pos (by simpa using hgone)]
      refine .keep hgone ?_ hrest
      cases event with
      | start i t => exact .start (hstart i t List.mem_cons_self hgone)
      | run i => exact .run i
      | cancel i => exact .cancel i
      | outside i e => exact .outside i e

theorem Event.purge_of_forall₂ {T : τ → τ → Prop} {events events' : List (Event ι τ ε)}
    (h : List.Forall₂ (Event.Rel T) events events') :
    Event.Purge (fun _ => False) T events events' := by
  induction h with
  | nil => exact .nil
  | cons hevent _ ih => exact .keep id hevent ih

/-- What comparing two runs rests on: related jobs and the outside cannot tell states related by `R` apart. -/
structure Service.Blind (S : Service σ τ ε α) (I : σ → Prop) (R : σ → σ → Prop)
    (E : τ → α → α → Prop) (T : τ → τ → Prop) : Prop where
  body : ∀ t t', T t t' → (S.body t).Sim I R (E t) (S.body t')
  cancelled : ∀ t t', T t t' → (S.cancelled t).Sim I R (E t) (S.cancelled t')
  outside : ∀ e s s', I s → R s s' → R (S.outside e s).2 (S.outside e s').2 ∧
    Option.Rel T (S.outside e s).1 (S.outside e s').1

namespace Pool

/-- A job in one run and the same job in another: both absent, or related and in step. -/
inductive JobRel (I : σ → Prop) (R : σ → σ → Prop) (E : τ → α → α → Prop) (T : τ → τ → Prop) :
    Option (τ × Proc σ α) → Option (τ × Proc σ α) → Prop
  | absent : JobRel I R E T none none
  | both {t t' : τ} {p p' : Proc σ α} (ht : T t t') (hp : p.Sim I R (E t) p') :
      JobRel I R E T (some (t, p)) (some (t', p'))

/-- The runs with and without the jobs in `gone` are at related states, and the other jobs are in step. -/
structure Purged (I : σ → Prop) (R : σ → σ → Prop) (E : τ → α → α → Prop) (T : τ → τ → Prop)
    (gone : ι → Prop) (P P' : Pool ι σ τ α) : Prop where
  shared : R P.shared P'.shared
  kept : ∀ i, ¬ gone i → JobRel I R E T (P.jobs i) (P'.jobs i)

variable [DecidableEq ι] {I : σ → Prop} {R : σ → σ → Prop} {E : τ → α → α → Prop}
  {T : τ → τ → Prop} {S : Service σ τ ε α} {gone : ι → Prop} {P P' : Pool ι σ τ α}

omit [DecidableEq ι] in
theorem purged_init {s s' : σ} (h : R s s') :
    (init s : Pool ι σ τ α).Purged I R E T gone (init s') where
  shared := h
  kept := fun _ _ => .absent

omit [DecidableEq ι] in
theorem Purged.result (h : P.Purged I R E T gone P') {i : ι} (hi : ¬ gone i) {a : α}
    (ha : P.result i = some a) : ∃ t a', P'.result i = some a' ∧ E t a a' := by
  obtain ⟨t, hjob⟩ := result_eq_some.mp ha
  have hrel := h.kept i hi
  rw [hjob] at hrel
  generalize hjob' : P'.jobs i = job' at hrel
  cases hrel with
  | @both t t' p p' ht hsim =>
    cases p' with
    | ret a' => exact ⟨t, a', result_eq_some.mpr ⟨t', hjob'⟩, Proc.sim_ret.mp hsim⟩
    | step act next => simp [Proc.Sim] at hsim

theorem Purged.setKept (h : P.Purged I R E T gone P') {i : ι} {s s' : σ}
    (hR : R s s') {job job' : Option (τ × Proc σ α)} (hjob : JobRel I R E T job job') :
    Purged I R E T gone { P.setJob i job with shared := s }
      { P'.setJob i job' with shared := s' } where
  shared := hR
  kept := fun j hj => by
    by_cases hji : j = i
    · subst hji
      rwa [setJob_jobs_self, setJob_jobs_self]
    · rw [setJob_jobs_of_ne _ _ _ hji, setJob_jobs_of_ne _ _ _ hji]
      exact h.kept j hj

theorem Purged.setDeleted (h : P.Purged I R E T gone P') {i : ι} (hi : gone i) {s : σ}
    (hR : R s P'.shared) (job : Option (τ × Proc σ α)) :
    Purged I R E T gone { P.setJob i job with shared := s } P' where
  shared := hR
  kept := fun j hj => by
    have hji : j ≠ i := fun heq => hj (heq ▸ hi)
    rw [setJob_jobs_of_ne _ _ _ hji]
    exact h.kept j hj

theorem Purged.step_kept (hS : S.Blind I R E T) (h : P.Purged I R E T gone P')
    (hI : I P.shared) {event event' : Event ι τ ε} (hjob : ¬ gone event.job)
    (hevent : event.Rel T event') :
    (P.step S event).Purged I R E T gone (P'.step S event') := by
  cases hevent with
  | @start i t t' ht =>
    have hrel := h.kept i hjob
    simp only [step]
    cases hi : P.jobs i <;> cases hi' : P'.jobs i <;> rw [hi, hi'] at hrel
    · exact h.setKept h.shared (.both ht (hS.body t t' ht))
    · cases hrel
    · cases hrel
    · exact h
  | run i =>
    have hrel := h.kept i hjob
    simp only [step]
    generalize hi : P.jobs i = job at hrel
    generalize hi' : P'.jobs i = job' at hrel
    cases hrel with
    | absent => exact h
    | @both t t' p p' ht hsim =>
      cases p <;> cases p'
      · exact h
      · simp [Proc.Sim] at hsim
      · simp [Proc.Sim] at hsim
      · have hnext := Proc.sim_step.mp hsim _ _ hI h.shared
        exact h.setKept hnext.1 (.both ht hnext.2)
  | cancel i =>
    have hrel := h.kept i hjob
    simp only [step]
    generalize hi : P.jobs i = job at hrel
    generalize hi' : P'.jobs i = job' at hrel
    cases hrel with
    | absent => exact h
    | @both t t' p p' ht hsim =>
      cases p <;> cases p'
      · exact h
      · simp [Proc.Sim] at hsim
      · simp [Proc.Sim] at hsim
      · exact h.setKept h.shared (.both ht (hS.cancelled t t' ht))
  | outside i e =>
    have hrel := h.kept i hjob
    simp only [step]
    cases hi : P.jobs i <;> cases hi' : P'.jobs i <;> rw [hi, hi'] at hrel
    · obtain ⟨hR, hstarted⟩ := hS.outside e P.shared P'.shared hI h.shared
      refine h.setKept hR ?_
      generalize (S.outside e P.shared).1 = started at hstarted
      generalize (S.outside e P'.shared).1 = started' at hstarted
      cases hstarted with
      | none => exact .absent
      | some ht => exact .both ht (hS.body _ _ ht)
    · cases hrel
    · cases hrel
    · exact h

theorem Purged.step_deleted (h : P.Purged I R E T gone P') {event : Event ι τ ε}
    (hjob : gone event.job) (hout : ∀ i e, event ≠ .outside i e) (hsilent : P.Silent R gone event) :
    (P.step S event).Purged I R E T gone P' := by
  cases event with
  | start i t =>
    rw [step]
    split
    · exact h.setDeleted hjob h.shared _
    · exact h
  | run i =>
    rw [step]
    split
    · rename_i t act next hi
      exact h.setDeleted hjob (hsilent i t act next rfl hjob hi _ h.shared) _
    · exact h
  | cancel i =>
    rw [step]
    split
    · exact h.setDeleted hjob h.shared _
    · exact h
  | outside i e => exact absurd rfl (hout i e)

/-- Delete jobs whose steps are silent: the others, and the shared state, go through the run as before. -/
theorem Purged.run (hS : S.Blind I R E T) {events events' : List (Event ι τ ε)}
    (hevents : Event.Purge gone T events events') {P P' : Pool ι σ τ α}
    (h : P.Purged I R E T gone P')
    (halong : Along S (fun P event => I P.shared ∧ P.Silent R gone event) P events) :
    (P.run S events).Purged I R E T gone (P'.run S events') := by
  induction hevents generalizing P P' with
  | nil => exact h
  | keep hjob hevent _ ih => exact ih (h.step_kept hS halong.1.1 hjob hevent) halong.2
  | drop hjob hout _ ih => exact ih (h.step_deleted hjob hout halong.1.2) halong.2

end Pool
