import Lazydns.Lib.Pool
import Mathlib.Data.List.Nodup
import Mathlib.Data.List.Perm.Subperm

/-!
# A pool behind a gate

A gate has a fixed number of permits. A job that comes takes one and is started, or finds none left and is refused; the permit is returned some time after the job has ended. The jobs of the pool that the gate let in and that have not ended are never more than the permits, and otherwise the pool goes on as one without a gate.
-/

/-- The pool and the permits that are left, with the jobs that hold one; and which jobs were let in and which were refused. -/
structure Gated (ι σ τ α : Type) where
  pool : Pool ι σ τ α
  available : Nat
  holders : List ι
  admitted : List (ι × τ)
  refused : List τ

variable {ι σ τ ε α : Type}

namespace Pool

variable [DecidableEq ι] {S : Service σ τ ε α} {P : Pool ι σ τ α}

theorem step_jobs_ne_none (event : Event ι τ ε) {i : ι} (h : P.jobs i ≠ none) : (P.step S event).jobs i ≠ none := by
  have hset : ∀ j job, P.jobs j ≠ none → job ≠ none → (P.setJob j job).jobs i ≠ none := by
    intro j job _ hjob
    by_cases hij : i = j
    · subst hij
      rwa [setJob_jobs_self]
    · rwa [setJob_jobs_of_ne P j job hij]
  cases event with
  | start j t =>
    rw [step]
    split
    · rename_i hnone
      have hij : i ≠ j := fun heq => h (heq ▸ hnone)
      rwa [setJob_jobs_of_ne P j _ hij]
    · exact h
  | run j =>
    rw [step]
    split
    · rename_i hjob
      exact hset j _ (by rw [hjob]; exact Option.some_ne_none _) (Option.some_ne_none _)
    · exact h
  | cancel j =>
    rw [step]
    split
    · rename_i hjob
      exact hset j _ (by rw [hjob]; exact Option.some_ne_none _) (Option.some_ne_none _)
    · exact h
  | outside j e =>
    rw [step]
    split
    · rename_i hnone
      have hij : i ≠ j := fun heq => h (heq ▸ hnone)
      show (P.setJob j _).jobs i ≠ none
      rwa [setJob_jobs_of_ne P j _ hij]
    · exact h

theorem step_result (event : Event ι τ ε) {i : ι} {a : α} (h : P.result i = some a) :
    (P.step S event).result i = some a := by
  obtain ⟨t, hjob⟩ := result_eq_some.mp h
  refine result_eq_some.mpr ⟨t, ?_⟩
  have hset : ∀ j job, P.jobs j ≠ some (t, .ret a) → (P.setJob j job).jobs i = some (t, .ret a) := by
    intro j job hne
    have hij : i ≠ j := fun heq => hne (heq ▸ hjob)
    rwa [setJob_jobs_of_ne P j job hij]
  cases event with
  | start j t' =>
    rw [step]
    split
    · rename_i hnone
      exact hset j _ (by rw [hnone]; exact (Option.some_ne_none _).symm)
    · exact hjob
  | run j =>
    rw [step]
    split
    · rename_i hrunning
      exact hset j _ (by rw [hrunning]; intro heq; cases heq)
    · exact hjob
  | cancel j =>
    rw [step]
    split
    · rename_i hrunning
      exact hset j _ (by rw [hrunning]; intro heq; cases heq)
    · exact hjob
  | outside j e =>
    rw [step]
    split
    · rename_i hnone
      exact hset j _ (by rw [hnone]; exact (Option.some_ne_none _).symm)
    · exact hjob

end Pool

def Event.starts : List (Event ι τ ε) → List (ι × τ) :=
  List.filterMap fun event => match event with
    | .start i t => some (i, t)
    | _ => none

/-- The event starts no job of a client, so no permit is needed for it. -/
def Event.free : Event ι τ ε → Bool
  | .start _ _ => false
  | _ => true

theorem Event.starts_append_free {events : List (Event ι τ ε)} {event : Event ι τ ε} (h : event.free = true) :
    Event.starts (events ++ [event]) = Event.starts events := by
  rw [starts, List.filterMap_append]
  cases event with
  | start i t => cases h
  | run i => exact List.append_nil _
  | cancel i => exact List.append_nil _
  | outside i e => exact List.append_nil _

namespace Gated

def new (s : σ) (permits : Nat) : Gated ι σ τ α := ⟨.init s, permits, [], [], []⟩

variable [DecidableEq ι] (S : Service σ τ ε α)

def enter (G : Gated ι σ τ α) (i : ι) (t : τ) : Gated ι σ τ α :=
  if 0 < G.available then
    { G with
      pool := G.pool.step S (.start i t)
      available := G.available - 1
      holders := G.holders ++ [i]
      admitted := G.admitted ++ [(i, t)] }
  else { G with refused := G.refused ++ [t] }

def task (G : Gated ι σ τ α) (event : Event ι τ ε) : Gated ι σ τ α := { G with pool := G.pool.step S event }

/-- A job that has ended returns its permit. -/
def release (G : Gated ι σ τ α) (i : ι) : Option (Gated ι σ τ α) :=
  if i ∈ G.holders ∧ (G.pool.result i).isSome then
    some { G with available := G.available + 1, holders := G.holders.erase i }
  else none

def inFlight (G : Gated ι σ τ α) : List (ι × τ) := G.admitted.filter fun job => (G.pool.result job.1).isNone

/-- The permits are accounted for, each job that was let in is in the pool and holds its permit until it has ended, and the pool has done nothing else than without a gate. -/
structure Sound (w : σ) (permits : Nat) (G : Gated ι σ τ α) : Prop where
  permits : G.available + G.holders.length = permits
  nodup : (G.admitted.map Prod.fst).Nodup
  started : ∀ job ∈ G.admitted, G.pool.jobs job.1 ≠ none
  held : ∀ job ∈ G.admitted, G.pool.result job.1 = none → job.1 ∈ G.holders
  run : ∃ events, G.pool = (Pool.init w).run S events ∧ Event.starts events = G.admitted

variable {S} {w : σ} {permits : Nat} {G G' : Gated ι σ τ α} {i : ι} {t : τ}

theorem sound_new (w : σ) (permits : Nat) : (new w permits : Gated ι σ τ α).Sound S w permits where
  permits := rfl
  nodup := List.nodup_nil
  started := nofun
  held := nofun
  run := ⟨[], rfl, rfl⟩

theorem Sound.task (h : G.Sound S w permits) {event : Event ι τ ε} (hfree : event.free = true) :
    (G.task S event).Sound S w permits where
  permits := h.permits
  nodup := h.nodup
  started := fun job hjob => Pool.step_jobs_ne_none event (h.started job hjob)
  held := by
    intro job hjob hnone
    apply h.held job hjob
    by_contra hsome
    obtain ⟨a, ha⟩ := Option.ne_none_iff_exists'.mp hsome
    have hended : (G.pool.step S event).result job.1 = some a := Pool.step_result event ha
    exact Option.some_ne_none a (hended.symm.trans hnone)
  run := by
    obtain ⟨events, hpool, hstarts⟩ := h.run
    refine ⟨events ++ [event], ?_, (Event.starts_append_free hfree).trans hstarts⟩
    rw [Pool.run_append, ← hpool]
    rfl

theorem Sound.enter (h : G.Sound S w permits) (hfresh : G.pool.jobs i = none) (t : τ) :
    (G.enter S i t).Sound S w permits := by
  rw [Gated.enter]
  split
  · rename_i havailable
    have hstep : G.pool.step S (.start i t) = G.pool.setJob i (some (t, S.body t)) := by
      rw [Pool.step, hfresh]
    have hnew : ∀ job ∈ G.admitted, job.1 ≠ i := fun job hjob heq => h.started job hjob (heq ▸ hfresh)
    refine ⟨?_, ?_, ?_, ?_, ?_⟩
    · have := h.permits
      show G.available - 1 + (G.holders ++ [i]).length = permits
      rw [List.length_append, List.length_singleton]
      omega
    · rw [List.map_append]
      apply List.nodup_append.mpr ⟨h.nodup, List.nodup_singleton _, ?_⟩
      intro j hj j' hj' heq
      obtain ⟨job, hjob, rfl⟩ := List.mem_map.mp hj
      exact hnew job hjob (heq.trans (List.mem_singleton.mp hj'))
    · intro job hjob
      obtain hold | hlast := List.mem_append.mp hjob
      · exact Pool.step_jobs_ne_none _ (h.started job hold)
      · rw [List.mem_singleton.mp hlast, hstep]
        show (G.pool.setJob i _).jobs i ≠ none
        rw [Pool.setJob_jobs_self]
        exact Option.some_ne_none _
    · intro job hjob hnone
      obtain hold | hlast := List.mem_append.mp hjob
      · apply List.mem_append_left
        apply h.held job hold
        rw [← hnone, hstep, Pool.result, Pool.result, Pool.setJob_jobs_of_ne _ _ _ (hnew job hold)]
      · rw [List.mem_singleton.mp hlast]
        exact List.mem_append_right _ (List.mem_singleton_self i)
    · obtain ⟨events, hpool, hstarts⟩ := h.run
      refine ⟨events ++ [.start i t], ?_, ?_⟩
      · rw [Pool.run_append, ← hpool]
        rfl
      · rw [Event.starts, List.filterMap_append]
        exact congrArg (· ++ [(i, t)]) hstarts
  · exact ⟨h.permits, h.nodup, h.started, h.held, h.run⟩

theorem Sound.release (h : G.Sound S w permits) (hrelease : G.release i = some G') : G'.Sound S w permits := by
  rw [Gated.release] at hrelease
  split at hrelease
  · rename_i hheld
    cases hrelease
    refine ⟨?_, h.nodup, h.started, ?_, h.run⟩
    · have hlength := List.length_erase_of_mem hheld.1
      have hpos := List.length_pos_of_mem hheld.1
      have := h.permits
      show G.available + 1 + (G.holders.erase i).length = permits
      omega
    · intro job hjob hnone
      have hne : job.1 ≠ i := by
        intro heq
        have hended := hheld.2
        rw [← heq] at hended
        change G.pool.result job.1 = none at hnone
        rw [hnone] at hended
        cases hended
      exact (List.mem_erase_of_ne hne).mpr (h.held job hjob hnone)
  · cases hrelease

/-- Never more jobs than permits. -/
theorem Sound.inFlight_le (h : G.Sound S w permits) : G.inFlight.length ≤ permits := by
  have hnodup : (G.inFlight.map Prod.fst).Nodup := h.nodup.sublist (List.filter_sublist.map Prod.fst)
  have hsub : G.inFlight.map Prod.fst ⊆ G.holders := by
    intro j hj
    obtain ⟨job, hjob, rfl⟩ := List.mem_map.mp hj
    obtain ⟨hadmitted, hnone⟩ := List.mem_filter.mp hjob
    exact h.held job hadmitted (Option.isNone_iff_eq_none.mp hnone)
  have hle := (List.subperm_of_subset hnodup hsub).length_le
  have := h.permits
  rw [List.length_map] at hle
  omega

theorem Sound.inFlight_eq_nil (h : G.Sound S w permits) (hall : permits ≤ G.available) : G.inFlight = [] := by
  have hlength := h.permits
  have hnone : G.holders = [] := List.length_eq_zero_iff.mp (by omega)
  apply List.filter_eq_nil_iff.mpr
  intro job hjob hrunning
  have hheld := h.held job hjob (Option.isNone_iff_eq_none.mp hrunning)
  rw [hnone] at hheld
  cases hheld

end Gated
