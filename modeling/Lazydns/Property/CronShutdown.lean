import Lazydns.Lib.Slots
import Lazydns.Plugin.CronRules
import Mathlib.Logic.Relation

/-!
# How cron jobs stop

When the stop signal is there, or its sender is gone, a job that waits at all triggers at most once more. After the signal the tasks end, and the shutdown need not wait for longer than a pause. Without it a job with an interval goes on for ever, and does nothing.
-/

namespace Lazydns

namespace CronPlugin

variable {s s' : System} {e : Event} {schedules : List ScheduleDef} {es : List Event}

/-! ### After the signal -/

/-- The stop signal is there, or there is nobody left to give it. -/
def Surroundings.Halting (e : Surroundings) : Prop := e.parent.value = true ∨ e.parent.closed = true

namespace Job

variable {e : Surroundings} {job job' : Job} {start : Nat} {occurrence : Option Occurrence} {branch : Branch}

/-- A job that goes on has not read the signal. -/
def Listening (parent : Watch Bool) (job : Job) : Prop := job.phase = .ended ∨ parent.Read job.seen false

theorem Listening.ready (h : job.Listening e.parent) (hlive : job.phase ≠ .ended) (hhalt : e.Halting) (wake : Nat) :
    job.ready e wake .parentStop = true := by
  have hread := h.resolve_left hlive
  rw [Job.ready, Bool.or_eq_true, bne_iff_ne]
  obtain hvalue | hclosed := hhalt
  · refine .inl fun heq => ?_
    rw [hread.newest heq] at hvalue
    cases hvalue
  · exact .inr hclosed

theorem next_live {delay : Nat} (h : job.next e = some (delay, occurrence)) : job.phase ≠ .ended := by
  obtain ⟨hphase, -⟩ | ⟨found, findNext, hphase, -⟩ := next_cases h
  · rw [hphase]
    simp
  · rw [hphase]
    simp

theorem listening_win (job : Job) (h : e.parent.Read job.seen false) :
    (job.win e start occurrence branch).Listening e.parent := by
  cases branch with
  | sleep => exact .inr h
  | jobStop => exact .inr h
  | parentStop =>
    by_cases hvalue : e.parent.value = true
    · refine .inl ?_
      rw [win, if_pos hvalue]
    · refine .inr ⟨Nat.le_refl _, fun _ => ?_⟩
      simpa using hvalue

theorem Listening.moves (h : job.Listening e.parent) (hmoves : job.Moves e job') : job'.Listening e.parent := by
  cases hmoves with
  | wait hnext => exact .inr (h.resolve_left (next_live hnext))
  | start hnext =>
    exact listening_win { job with rounds := job.rounds ++ [e.now] } (h.resolve_left (next_live hnext))
  | finish hphase => exact listening_win job (h.resolve_left (by simp [hphase]))
  | find hphase => exact .inr (h.resolve_left (by simp [hphase]))
  | give => exact .inl rfl
  | pause hphase => exact .inr (h.resolve_left (by simp [hphase]))
  | loop hphase =>
    refine .inr (h.resolve_left ?_)
    obtain ⟨start, hphase, -⟩ | ⟨wake, hphase, -⟩ := hphase
    · simp [hphase]
    · simp [hphase]

/-- A job that waits at all does not begin to wait again. -/
theorem Listening.triggers_moves (h : job.Listening e.parent) (hhalt : e.Halting)
    (hwaits : job.schedule ≠ .interval 0) (hmoves : job.Moves e job') :
    job'.triggers.length + job'.phase.pending ≤ job.triggers.length + job.phase.pending := by
  cases hmoves with
  | @wait delay occurrence hnext hnone =>
    have hready := h.ready (next_live hnext) hhalt (e.now + delay)
    rw [hnone] at hready
    cases hready
  | @start delay occurrence branch hnext hready =>
    rw [win_pending, win_triggers, if_neg]
    · exact Nat.le_add_right _ _
    · rintro rfl
      have hdelay : e.now + delay ≤ e.now := of_decide_eq_true hready
      obtain ⟨-, -, seconds, hschedule, rfl⟩ | ⟨found, findNext, -, -, -, rfl⟩ := next_cases hnext
      · refine hwaits (hschedule.trans (congrArg _ ?_))
        rw [nanosPerSec] at hdelay
        omega
      · rw [delayUntil, minDelay, nanosPerMilli] at hdelay
        split at hdelay <;> omega
  | finish hphase =>
    rw [win_pending, win_triggers, hphase]
    show _ ≤ job.triggers.length + 1
    split
    · rw [List.length_append]
      exact Nat.le_refl _
    · exact Nat.le_succ _
  | find | give | pause | loop => exact Nat.le_add_right _ _

theorem ended_of_moves {seconds : Nat} (hschedule : job.schedule = .interval seconds)
    (hmoves : job.Moves e job') (hended : job'.phase = .ended) : e.parent.value = true := by
  cases hmoves with
  | start =>
    obtain hphase | hphase := win_phase e { job with rounds := job.rounds ++ [e.now] } e.now _ _
    · rw [hphase] at hended
      cases hended
    · exact hphase.2.2
  | finish =>
    obtain hphase | hphase := win_phase e job _ _ _
    · rw [hphase] at hended
      cases hended
    · exact hphase.2.2
  | give hphase hcron =>
    rw [hschedule] at hcron
    cases hcron
  | wait | find | pause | loop => cases hended

end Job

theorem listening_of_moves (h : ∀ job ∈ s.jobs, job.Listening s.parent) (hmoves : Moves s s') :
    ∀ job ∈ s'.jobs, job.Listening s'.parent := by
  refine forall_jobs_of_moves (P := fun e job => job.Listening e.parent) (fun _ _ _ hjob => hjob.moves)
    (fun job hjob hjobs => ?_) h hmoves
  show job.Listening s'.parent
  cases hmoves with
  | @signal parent hidle hparent =>
    obtain hsend | ⟨rfl, -⟩ := hparent
    · exact hjob.imp_right fun hread => hread.send hsend
    · exact hjob
  | dropped => exact hjob.imp_right Watch.Read.close
  | job | joined | returned | abandoned | elapsed => exact hjob

theorem listening_of_run (hrun : machine.run (.new schedules) es = some s) : ∀ job ∈ s.jobs, job.Listening s.parent := by
  apply Machine.run_invariant (I := fun s : System => ∀ job ∈ s.jobs, job.Listening s.parent) _ _ hrun
  · exact fun _ _ _ h hstep => listening_of_moves h (moves_of_step hstep)
  · intro job hmem
    obtain ⟨schedule, -, rfl⟩ := List.mem_map.mp hmem
    exact .inr (Watch.Read.refl _)

theorem halting_of_moves (h : s.surroundings.Halting) (hmoves : Moves s s') : s'.surroundings.Halting := by
  cases hmoves with
  | @signal parent hidle hparent =>
    obtain hsend | ⟨rfl, -⟩ := hparent
    · rw [Watch.send] at hsend
      split at hsend
      · cases hsend
      · cases hsend
        exact .inl rfl
    · exact h
  | dropped => exact .inr rfl
  | job | joined | returned | abandoned | elapsed => exact h

theorem silent_of_moves (h : s.parent.value = false ∧ s.parent.closed = true) (hmoves : Moves s s') :
    s'.parent.value = false ∧ s'.parent.closed = true := by
  cases hmoves with
  | @signal parent hidle hparent =>
    obtain hsend | ⟨rfl, -⟩ := hparent
    · rw [Watch.send, if_pos h.2] at hsend
      cases hsend
    · exact h
  | dropped => exact ⟨h.1, rfl⟩
  | job | joined | returned | abandoned | elapsed => exact h

theorem job_of_moves {j : Nat} {job : Job} (hj : s.jobs[j]? = some job) (hmoves : Moves s s') :
    s'.jobs[j]? = some job ∨ ∃ job', s'.jobs[j]? = some job' ∧ job.Moves s.surroundings job' := by
  cases hmoves with
  | @job i job₁ job' hi hjob =>
    obtain ⟨hlt, -⟩ := List.getElem?_eq_some_iff.mp hj
    by_cases heq : i = j
    · subst heq
      rw [hi] at hj
      cases hj
      exact .inr ⟨job', List.getElem?_set_self hlt, hjob⟩
    · exact .inl ((List.getElem?_set_ne heq).trans hj)
  | signal | joined | returned | abandoned | dropped | elapsed => exact .inl hj

/-- From when the signal is there, or its sender gone, a job that waits at all triggers at most once more. If the sender went without a signal, a job with an interval that has not ended never does. -/
theorem halted_of_run {es' : List Event} {t : System} (hrun : machine.run (.new schedules) es = some s)
    (hhalt : s.parent.value = true ∨ s.parent.closed = true) (hafter : machine.run s es' = some t) :
    ∀ (j : Nat) (job : Job), s.jobs[j]? = some job → ∃ job', t.jobs[j]? = some job' ∧
      (job.schedule ≠ .interval 0 → job'.triggers.length ≤ job.triggers.length + 1) ∧
      (s.parent.value = false → ∀ seconds, job.schedule = .interval seconds → job.phase ≠ .ended →
        job'.phase ≠ .ended) := by
  intro j job hj
  have hkept := Machine.run_invariant (M := machine)
    (I := fun u => (∀ job ∈ u.jobs, job.Listening u.parent) ∧ u.surroundings.Halting ∧
      (s.parent.value = false → u.parent.value = false ∧ u.parent.closed = true) ∧
      ∃ job', u.jobs[j]? = some job' ∧ job'.schedule = job.schedule ∧
        (job.schedule ≠ .interval 0 →
          job'.triggers.length + job'.phase.pending ≤ job.triggers.length + job.phase.pending) ∧
        (s.parent.value = false → ∀ seconds, job.schedule = .interval seconds → job.phase ≠ .ended →
          job'.phase ≠ .ended)) ?_ ?_ hafter
  · obtain ⟨-, -, -, job', hj', -, htriggers, hended⟩ := hkept
    refine ⟨job', hj', fun hwaits => ?_, hended⟩
    have hle := htriggers hwaits
    have hpending : job.phase.pending ≤ 1 := by
      cases job.phase with
      | selecting => exact Nat.le_refl 1
      | looping | found | selected | pausing | ended => exact Nat.zero_le 1
    omega
  · rintro u e u' ⟨hlistening, hhalting, hsilent, job₁, hj₁, hschedule, htriggers, hended⟩ hstep
    have hmoves := moves_of_step hstep
    refine ⟨listening_of_moves hlistening hmoves, halting_of_moves hhalting hmoves,
      fun hvalue => silent_of_moves (hsilent hvalue) hmoves, ?_⟩
    obtain hsame | ⟨job₂, hj₂, hjob⟩ := job_of_moves hj₁ hmoves
    · exact ⟨job₁, hsame, hschedule, htriggers, hended⟩
    · refine ⟨job₂, hj₂, hjob.schedule.trans hschedule, fun hwaits => ?_, fun hvalue seconds hinterval hlive hgone => ?_⟩
      · have hlistens := hlistening job₁ (List.mem_of_getElem? hj₁)
        exact Nat.le_trans (hlistens.triggers_moves hhalting (hschedule ▸ hwaits) hjob) (htriggers hwaits)
      · have hsignal := Job.ended_of_moves (hschedule.trans hinterval) hjob hgone
        rw [show u.surroundings.parent = u.parent from rfl, (hsilent hvalue).1] at hsignal
        cases hsignal
  · refine ⟨listening_of_run hrun, hhalt, fun hvalue => ⟨hvalue, ?_⟩, job, hj, rfl, fun _ => Nat.le_refl _,
      fun _ _ _ hlive => hlive⟩
    exact hhalt.resolve_left (by simp [hvalue])

/-- The plugin is dropped while its job waits, and the job goes on with nothing to wait for. -/
theorem halted_of_run_dropped :
    ∃ s t, machine.run (.new [.interval 1]) [.enter 0 none, .drop] = some s ∧ s.parent.closed = true ∧
      machine.run s [.resolve 0 .parentStop, .advance 0, .elapse 10000000, .advance 0, .enter 0 (some .parentStop)] =
        some t ∧
      ∃ job', t.jobs[0]? = some job' ∧ job'.triggers.length ≤ 1 ∧ job'.phase ≠ .ended := by
  obtain ⟨s, t, job, hrun, hvalue, hclosed, hafter, hj, htriggers, hschedule, hphase⟩ : ∃ s t job,
      machine.run (.new [.interval 1]) [.enter 0 none, .drop] = some s ∧ s.parent.value = false ∧
        s.parent.closed = true ∧
        machine.run s [.resolve 0 .parentStop, .advance 0, .elapse 10000000, .advance 0, .enter 0 (some .parentStop)] =
          some t ∧
        s.jobs[0]? = some job ∧ job.triggers = [] ∧ job.schedule = .interval 1 ∧
        job.phase = .selecting 0 1000000000 none :=
    ⟨_, _, _, rfl, rfl, rfl, rfl, rfl, rfl, rfl, rfl⟩
  obtain ⟨job', hj', hmore, hended⟩ := halted_of_run hrun (.inr hclosed) hafter 0 job hj
  refine ⟨s, t, hrun, hclosed, hafter, job', hj', ?_, hended hvalue 1 hschedule (by simp [hphase])⟩
  have hle := hmore (by simp [hschedule])
  rwa [htriggers] at hle

/-! ### The shutdown -/

namespace Job

variable {e : Surroundings} {job job' job'' : Job} {now now' : Nat}

theorem Moves.live (h : job.Moves e job') : job.phase ≠ .ended := by
  cases h with
  | wait hnext => exact next_live hnext
  | start hnext => exact next_live hnext
  | finish hphase => simp [hphase]
  | find hphase => simp [hphase]
  | give hphase => simp [hphase]
  | pause hphase => simp [hphase]
  | loop hphase =>
    obtain ⟨start, hphase, -⟩ | ⟨wake, hphase, -⟩ := hphase
    · simp [hphase]
    · simp [hphase]

/-- No pause is longer than `minDelay`, and only a crontab is looked up. -/
def Tidy (now : Nat) (job : Job) : Prop :=
  match job.phase with
  | .selected start => start ≤ now
  | .selecting start _ _ => start ≤ now
  | .pausing wake => wake ≤ now + minDelay
  | .found _ => ∃ findNext, job.schedule = .cron findNext
  | _ => True

theorem Tidy.later (h : job.Tidy now) (hnow : now ≤ now') : job.Tidy now' := by
  rw [Tidy] at *
  split <;> rename_i hphase <;> simp only [hphase] at h
  · exact Nat.le_trans h hnow
  · exact Nat.le_trans h hnow
  · exact Nat.le_trans h (Nat.add_le_add_right hnow minDelay)
  · exact h
  · trivial

theorem tidy_win {start : Nat} {occurrence : Option Occurrence} {branch : Branch} (hstart : start ≤ e.now) :
    (job.win e start occurrence branch).Tidy e.now := by
  rw [Tidy]
  obtain hphase | hphase := win_phase e job start occurrence branch
  · rw [hphase]
    exact hstart
  · rw [hphase.1]
    trivial

theorem Tidy.moves (h : job.Tidy e.now) (hmoves : job.Moves e job') : job'.Tidy e.now := by
  cases hmoves with
  | wait => exact Nat.le_refl e.now
  | start => exact tidy_win (Nat.le_refl _)
  | finish hphase =>
    rw [Tidy, hphase] at h
    exact tidy_win h
  | find _ hschedule => exact ⟨_, hschedule⟩
  | give => trivial
  | pause => exact Nat.le_refl _
  | loop => trivial

def Stepped (e : Surroundings) (job job' : Job) : Prop :=
  (∃ won, job.enter e won = some job') ∨ (∃ branch, job.resolve e branch = some job') ∨ job.advance e = some job'

/-- A job can end now, and does not trigger before. -/
def CanEnd (e : Surroundings) (job : Job) : Prop :=
  ∃ job', Relation.ReflTransGen (Stepped e) job job' ∧ job'.phase = .ended ∧ job'.triggers = job.triggers

theorem CanEnd.of_stepped (hstep : Stepped e job job') (h : job'.CanEnd e) (htriggers : job'.triggers = job.triggers) :
    job.CanEnd e := by
  obtain ⟨job'', hsteps, hended, hsame⟩ := h
  exact ⟨job'', .head hstep hsteps, hended, hsame.trans htriggers⟩

theorem canEnd_of_ended (h : job.phase = .ended) : job.CanEnd e := ⟨job, .refl, h, rfl⟩

theorem canEnd_of_next (job : Job) (hread : e.parent.Read job.seen false) (hvalue : e.parent.value = true) {delay : Nat}
    {occurrence : Option Occurrence} (hnext : job.next e = some (delay, occurrence)) : job.CanEnd e := by
  have hready := Listening.ready (e := e) (.inr hread) (next_live hnext) (.inl hvalue) (e.now + delay)
  have henter : job.enter e (some .parentStop) =
      some (({ job with rounds := job.rounds ++ [e.now] } : Job).win e e.now occurrence .parentStop) := by
    rw [enter, hnext, Option.bind_some]
    exact if_pos hready
  refine .of_stepped (.inl ⟨_, henter⟩) (canEnd_of_ended ?_) rfl
  rw [win, if_pos hvalue]

theorem canEnd_of_looping (hread : e.parent.Read job.seen false) (hvalue : e.parent.value = true)
    (hphase : job.phase = .looping) : job.CanEnd e := by
  cases hschedule : job.schedule with
  | interval seconds => exact canEnd_of_next job hread hvalue (next_of_looping hphase hschedule)
  | cron findNext =>
    cases hfound : findNext e.now with
    | none =>
      have hadvance : job.advance e = some { job with phase := .ended } := by
        simp only [advance, hphase, hschedule, hfound]
      exact .of_stepped (.inr (.inr hadvance)) (canEnd_of_ended rfl) rfl
    | some next =>
      have hadvance : job.advance e = some { job with phase := .found ⟨e.now, next⟩ } := by
        simp only [advance, hphase, hschedule, hfound]
      refine .of_stepped (.inr (.inr hadvance)) ?_ rfl
      exact canEnd_of_next { job with phase := .found ⟨e.now, next⟩ } hread hvalue
        (next_of_found rfl hschedule)

theorem canEnd_later (h : job.Listening e.parent) (hvalue : e.parent.value = true) (htidy : job.Tidy now)
    (hnow : now + minDelay ≤ e.now) : job.CanEnd e := by
  by_cases hlive : job.phase = .ended
  · exact canEnd_of_ended hlive
  · have hread := h.resolve_left hlive
    rw [Tidy] at htidy
    cases hphase : job.phase with
    | looping => exact canEnd_of_looping hread hvalue hphase
    | found o =>
      rw [hphase] at htidy
      obtain ⟨findNext, hschedule⟩ := htidy
      exact canEnd_of_next job hread hvalue (next_of_found hphase hschedule)
    | selecting start wake occurrence =>
      have hready := h.ready hlive (.inl hvalue) wake
      have hresolve : job.resolve e .parentStop = some (job.win e start occurrence .parentStop) := by
        rw [resolve, hphase]
        exact if_pos hready
      refine .of_stepped (.inr (.inl ⟨_, hresolve⟩)) (canEnd_of_ended ?_) rfl
      rw [win, if_pos hvalue]
    | selected start =>
      rw [hphase] at htidy
      have hover : ¬e.now - start < minDelay := by
        have hle : start ≤ now := htidy
        omega
      have hadvance : job.advance e = some { job with phase := .looping } := by
        rw [advance, hphase]
        simp only [if_neg hover]
      exact .of_stepped (.inr (.inr hadvance)) (canEnd_of_looping hread hvalue rfl) rfl
    | pausing wake =>
      rw [hphase] at htidy
      have hwake : wake ≤ e.now := Nat.le_trans htidy hnow
      have hadvance : job.advance e = some { job with phase := .looping } := by
        rw [advance, hphase]
        simp only [if_pos hwake]
      exact .of_stepped (.inr (.inr hadvance)) (canEnd_of_looping hread hvalue rfl) rfl
    | ended => exact absurd hphase hlive

end Job

/-- What the shutdown has awaited has ended, and nobody is awaited in vain. -/
structure System.Joined (s : System) : Prop where
  awaited : ∀ handles, s.shutdown = .joining handles →
    ∀ (j : Nat) (job : Job), s.jobs[j]? = some job → j ∉ handles → job.phase = .ended
  known : ∀ handles, s.shutdown = .joining handles → ∀ j ∈ handles, j < s.jobs.length
  signalled : ∀ handles, s.shutdown = .joining handles → ∀ job ∈ s.jobs, job.phase = .ended ∨ s.parent.value = true
  returned : s.shutdown = .returned → ∀ job ∈ s.jobs, job.phase = .ended

theorem joined_of_other (hjoining : ∀ handles, s.shutdown ≠ .joining handles) (hreturned : s.shutdown ≠ .returned) :
    s.Joined :=
  ⟨fun handles heq => absurd heq (hjoining handles), fun handles heq => absurd heq (hjoining handles),
    fun handles heq => absurd heq (hjoining handles), fun heq => absurd heq hreturned⟩

theorem System.Joined.job (h : s.Joined) {i : Nat} {job job' : Job} (hi : s.jobs[i]? = some job)
    (hjob : job.Moves s.surroundings job') : ({ s with jobs := s.jobs.set i job' } : System).Joined := by
  have hmem := List.mem_of_getElem? hi
  refine ⟨fun handles heq j job₁ hj hnot => ?_, fun handles heq j hj => ?_, fun handles heq _ _ => .inr ?_, fun heq => ?_⟩
  · obtain ⟨rfl, -⟩ | ⟨-, hold⟩ := (Slots.getElem?_set_iff hi).mp hj
    · exact absurd (h.awaited handles heq _ job hi hnot) hjob.live
    · exact h.awaited handles heq j job₁ hold hnot
  · show j < (s.jobs.set i job').length
    rw [List.length_set]
    exact h.known handles heq j hj
  · exact (h.signalled handles heq job hmem).resolve_left hjob.live
  · exact absurd (h.returned heq job hmem) hjob.live

theorem joined_of_moves (h : s.Joined) (hmoves : Moves s s') : s'.Joined := by
  cases hmoves with
  | job hi hjob => exact h.job hi hjob
  | @signal parent hidle hparent =>
    refine ⟨fun handles heq j job hj hnot => ?_, fun handles heq j hj => ?_, fun handles heq job hmem => ?_, fun heq => ?_⟩
    · cases heq
      exact absurd (List.mem_range.mpr (List.getElem?_eq_some_iff.mp hj).1) hnot
    · cases heq
      exact List.mem_range.mp hj
    · obtain hsend | ⟨rfl, hended⟩ := hparent
      · rw [Watch.send] at hsend
        split at hsend
        · cases hsend
        · cases hsend
          exact .inr rfl
      · exact .inl (hended job hmem)
    · cases heq
  | @joined i job handles hjoining hi hended =>
    refine ⟨fun handles' heq j job' hj hnot => ?_, fun handles' heq j hj => ?_, fun handles' heq => ?_, fun heq => ?_⟩
    · cases heq
      by_cases hij : j = i
      · subst hij
        rw [show s.jobs[j]? = some job' from hj] at hi
        cases hi
        exact hended
      · exact h.awaited _ hjoining j job' hj fun hmem => hnot ((List.mem_cons.mp hmem).resolve_left hij)
    · cases heq
      exact h.known _ hjoining j (List.mem_cons_of_mem _ hj)
    · exact h.signalled _ hjoining
    · cases heq
  | returned hjoining =>
    refine ⟨fun _ heq => (by cases heq), fun _ heq => (by cases heq), fun _ heq => (by cases heq), fun _ job hmem => ?_⟩
    obtain ⟨j, hj⟩ := List.mem_iff_getElem?.mp hmem
    exact h.awaited [] hjoining j job hj List.not_mem_nil
  | abandoned => exact joined_of_other (fun _ heq => by cases heq) fun heq => by cases heq
  | dropped hshutdown =>
    exact ⟨fun handles heq => absurd heq (hshutdown handles), fun handles heq => absurd heq (hshutdown handles),
      fun handles heq => absurd heq (hshutdown handles), h.returned⟩
  | elapsed => exact ⟨h.awaited, h.known, h.signalled, h.returned⟩

/-- What the jobs and the shutdown keep in every run. -/
structure System.Orderly (s : System) : Prop where
  joined : s.Joined
  listening : ∀ job ∈ s.jobs, job.Listening s.parent
  tidy : ∀ job ∈ s.jobs, job.Tidy s.now

theorem orderly_of_run (hrun : machine.run (.new schedules) es = some s) : s.Orderly := by
  apply Machine.run_invariant (I := System.Orderly) _ _ hrun
  · intro s e s' h hstep
    have hmoves := moves_of_step hstep
    refine ⟨joined_of_moves h.joined hmoves, listening_of_moves h.listening hmoves, ?_⟩
    exact forall_jobs_of_moves (P := fun e job => job.Tidy e.now) (fun _ _ _ hjob => hjob.moves)
      (fun job hjob _ => hjob.later (now_le_of_moves hmoves)) h.tidy hmoves
  · refine ⟨joined_of_other (fun _ heq => by cases heq) (fun heq => by cases heq), fun job hmem => ?_, fun job hmem => ?_⟩
    · obtain ⟨schedule, -, rfl⟩ := List.mem_map.mp hmem
      exact .inr (Watch.Read.refl _)
    · obtain ⟨schedule, -, rfl⟩ := List.mem_map.mp hmem
      trivial

theorem jobStep_eq {j : Nat} {job job' : Job} {f : Surroundings → Job → Option Job} (hj : s.jobs[j]? = some job)
    (hf : f s.surroundings job = some job') : s.jobStep j f = some { s with jobs := s.jobs.set j job' } := by
  simp only [System.jobStep, hj, hf, Option.map_some]

theorem exists_step_of_stepped {j : Nat} {job job' : Job} (hj : s.jobs[j]? = some job)
    (hstep : job.Stepped s.surroundings job') : ∃ e, machine.step s e = some { s with jobs := s.jobs.set j job' } := by
  obtain ⟨won, h⟩ | ⟨branch, h⟩ | h := hstep
  · exact ⟨.enter j won, jobStep_eq (f := fun e job => job.enter e won) hj h⟩
  · exact ⟨.resolve j branch, jobStep_eq (f := fun e job => job.resolve e branch) hj h⟩
  · exact ⟨.advance j, jobStep_eq (f := fun e job => job.advance e) hj h⟩

theorem exists_run_of_steps {j : Nat} {job job' : Job} (hj : s.jobs[j]? = some job)
    (hsteps : Relation.ReflTransGen (Job.Stepped s.surroundings) job job') :
    ∃ es, machine.run s es = some { s with jobs := s.jobs.set j job' } := by
  obtain ⟨hlt, hjob⟩ := List.getElem?_eq_some_iff.mp hj
  induction hsteps with
  | refl =>
    refine ⟨[], ?_⟩
    rw [Machine.run_nil, ← hjob, List.set_getElem_self hlt]
  | @tail job₁ job₂ _ hstep ih =>
    obtain ⟨es, hrun⟩ := ih
    have hjob₁ : ({ s with jobs := s.jobs.set j job₁ } : System).jobs[j]? = some job₁ := List.getElem?_set_self hlt
    obtain ⟨e, he⟩ := exists_step_of_stepped hjob₁ hstep
    refine ⟨es ++ [e], ?_⟩
    rw [Machine.run_append_of_run hrun, Machine.run_cons_of_step he, Machine.run_nil]
    show some { s with jobs := (s.jobs.set j job₁).set j job₂ } = _
    rw [List.set_set]

/-- Once every job can end, the shutdown can return. -/
theorem exists_run_of_canEnd (handles : List Nat) (hshutdown : s.shutdown = .joining handles)
    (hknown : ∀ j ∈ handles, j < s.jobs.length) (hends : ∀ job ∈ s.jobs, job.CanEnd s.surroundings) :
    ∃ es t, machine.run s es = some t ∧ t.shutdown = .returned ∧ t.now = s.now ∧
      t.jobs.map Job.triggers = s.jobs.map Job.triggers := by
  induction handles generalizing s with
  | nil =>
    have hstep : machine.step s .join = some { s with shutdown := .returned } := by
      show step s .join = _
      simp only [step, hshutdown]
    exact ⟨[.join], _, Machine.run_cons_of_step hstep [], rfl, rfl, rfl⟩
  | cons j handles ih =>
    have hlt := hknown j List.mem_cons_self
    have hj : s.jobs[j]? = some s.jobs[j] := List.getElem?_eq_getElem hlt
    obtain ⟨job', hsteps, hended, htriggers⟩ := hends s.jobs[j] (List.getElem_mem hlt)
    obtain ⟨es, hrun⟩ := exists_run_of_steps hj hsteps
    have hjoin : machine.step { s with jobs := s.jobs.set j job' } .join =
        some { s with jobs := s.jobs.set j job', shutdown := .joining handles } := by
      show step _ .join = _
      simp [step, hshutdown, hlt, hended]
    obtain ⟨es', t, hrest, hreturned, hnow, hsame⟩ :=
      ih (s := { s with jobs := s.jobs.set j job', shutdown := .joining handles }) rfl (fun i hi => by
        show i < (s.jobs.set j job').length
        rw [List.length_set]
        exact hknown i (List.mem_cons_of_mem _ hi)) (fun job hmem => by
          obtain hold | rfl := List.mem_or_eq_of_mem_set hmem
          · exact hends job hold
          · exact Job.canEnd_of_ended hended)
    refine ⟨es ++ .join :: es', t, ?_, hreturned, hnow, hsame.trans ?_⟩
    · rw [Machine.run_append_of_run hrun, Machine.run_cons_of_step hjoin, hrest]
    · show (s.jobs.set j job').map Job.triggers = _
      rw [List.map_set, htriggers, ← List.map_set, List.set_getElem_self hlt]

/-- When the shutdown has returned, all jobs have ended. As long as it awaits them, it can return after one pause, and no job triggers before. -/
theorem shutdown_of_run (hrun : machine.run (.new schedules) es = some s) :
    (s.shutdown = .returned → ∀ job ∈ s.jobs, job.phase = .ended) ∧
      ∀ handles, s.shutdown = .joining handles →
        ∃ es' t, machine.run s es' = some t ∧ t.shutdown = .returned ∧ t.now = s.now + minDelay ∧
          t.jobs.map Job.triggers = s.jobs.map Job.triggers := by
  have horderly := orderly_of_run hrun
  refine ⟨horderly.joined.returned, fun handles hshutdown => ?_⟩
  have hends : ∀ job ∈ s.jobs, job.CanEnd ⟨s.now + minDelay, s.parent, s.orphaned⟩ := by
    intro job hmem
    obtain hended | hvalue := horderly.joined.signalled handles hshutdown job hmem
    · exact Job.canEnd_of_ended hended
    · exact Job.canEnd_later (horderly.listening job hmem) hvalue (horderly.tidy job hmem) (Nat.le_refl _)
  obtain ⟨es', t, hrest, hreturned, hnow, hsame⟩ :=
    exists_run_of_canEnd (s := { s with now := s.now + minDelay }) handles hshutdown
      (horderly.joined.known handles hshutdown) hends
  have hstep : machine.step s (.elapse minDelay) = some { s with now := s.now + minDelay } := rfl
  exact ⟨.elapse minDelay :: es', t, (Machine.run_cons_of_step hstep _).trans hrest, hreturned, hnow, hsame⟩

/-- A job is awaited that has just triggered. -/
theorem shutdown_of_run_triggered :
    ∃ s, machine.run (.new [.interval 1]) [.enter 0 none, .elapse 1000000000, .resolve 0 .sleep, .shutdown] = some s ∧
      ∃ es' t, machine.run s es' = some t ∧ t.shutdown = .returned ∧ t.now = s.now + minDelay ∧
        t.jobs.map Job.triggers = s.jobs.map Job.triggers := by
  obtain ⟨s, hrun, hshutdown⟩ : ∃ s,
      machine.run (.new [.interval 1]) [.enter 0 none, .elapse 1000000000, .resolve 0 .sleep, .shutdown] = some s ∧
        s.shutdown = .joining [0] := ⟨_, rfl, rfl⟩
  exact ⟨s, hrun, (shutdown_of_run hrun).2 [0] hshutdown⟩

end CronPlugin

end Lazydns
