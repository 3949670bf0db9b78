import Lazydns.Plugin.Cron

/-!
# Steps of the cron jobs

What a job can do next, and what a step of the plugin does to its jobs and to what they see of it.
-/

namespace Lazydns

namespace CronPlugin

/-! ### What a job can do -/

/-- The trigger that may still come of the round. -/
def Phase.pending : Phase → Nat
  | .selecting _ _ _ => 1
  | _ => 0

namespace Job

inductive Moves (e : Surroundings) (job : Job) : Job → Prop
  | wait {delay : Nat} {occurrence : Option Occurrence} (hnext : job.next e = some (delay, occurrence))
      (hnone : ∀ branch, job.ready e (e.now + delay) branch = false) :
      Moves e job
        { job with phase := .selecting e.now (e.now + delay) occurrence, rounds := job.rounds ++ [e.now] }
  | start {delay : Nat} {occurrence : Option Occurrence} {branch : Branch}
      (hnext : job.next e = some (delay, occurrence)) (hready : job.ready e (e.now + delay) branch = true) :
      Moves e job (({ job with rounds := job.rounds ++ [e.now] } : Job).win e e.now occurrence branch)
  | finish {start wake : Nat} {occurrence : Option Occurrence} {branch : Branch}
      (hphase : job.phase = .selecting start wake occurrence) (hready : job.ready e wake branch = true) :
      Moves e job (job.win e start occurrence branch)
  | find {findNext : Nat → Option Nat} {next : Nat} (hphase : job.phase = .looping)
      (hschedule : job.schedule = .cron findNext) (hnext : findNext e.now = some next) :
      Moves e job { job with phase := .found ⟨e.now, next⟩ }
  | give {findNext : Nat → Option Nat} (hphase : job.phase = .looping) (hschedule : job.schedule = .cron findNext)
      (hnone : findNext e.now = none) : Moves e job { job with phase := .ended }
  | pause {start : Nat} (hphase : job.phase = .selected start) (hshort : e.now - start < minDelay) :
      Moves e job { job with phase := .pausing (e.now + minDelay) }
  | loop (hphase : (∃ start, job.phase = .selected start ∧ start + minDelay ≤ e.now) ∨
        ∃ wake, job.phase = .pausing wake ∧ wake ≤ e.now) : Moves e job { job with phase := .looping }

variable {e : Surroundings} {job job' : Job} {branch : Branch} {won : Option Branch}

theorem moves_of_enter (h : job.enter e won = some job') : job.Moves e job' := by
  obtain ⟨⟨delay, occurrence⟩, hnext, h⟩ := Option.bind_eq_some_iff.mp h
  cases won with
  | some branch =>
    obtain ⟨hready, heq⟩ := Option.ite_none_right_eq_some.mp h
    cases heq
    exact .start hnext hready
  | none =>
    obtain ⟨hnone, heq⟩ := Option.ite_none_left_eq_some.mp h
    cases heq
    simp only [Bool.or_eq_true, not_or, Bool.not_eq_true] at hnone
    refine .wait hnext fun branch => ?_
    cases branch with
    | sleep => exact hnone.1.1
    | parentStop => exact hnone.1.2
    | jobStop => exact hnone.2

theorem moves_of_resolve (h : job.resolve e branch = some job') : job.Moves e job' := by
  rw [resolve] at h
  split at h
  · rename_i start wake occurrence hphase
    obtain ⟨hready, heq⟩ := Option.ite_none_right_eq_some.mp h
    cases heq
    exact .finish hphase hready
  · cases h

theorem moves_of_advance (h : job.advance e = some job') : job.Moves e job' := by
  rw [advance] at h
  split at h
  · rename_i findNext hphase hschedule
    split at h
    · rename_i next hnext
      cases h
      exact .find hphase hschedule hnext
    · rename_i hnone
      cases h
      exact .give hphase hschedule hnone
  · rename_i start hphase
    by_cases hshort : e.now - start < minDelay
    · rw [if_pos hshort] at h
      cases h
      exact .pause hphase hshort
    · rw [if_neg hshort] at h
      cases h
      exact .loop (.inl ⟨start, hphase, by rw [minDelay, nanosPerMilli] at *; omega⟩)
  · rename_i wake hphase
    obtain ⟨hwake, heq⟩ := Option.ite_none_right_eq_some.mp h
    cases heq
    exact .loop (.inr ⟨wake, hphase, hwake⟩)
  · cases h

theorem next_of_looping {seconds : Nat} (hphase : job.phase = .looping) (hschedule : job.schedule = .interval seconds) :
    job.next e = some (seconds * nanosPerSec, none) := by
  simp only [next, hphase, hschedule]

theorem next_of_found {found : Occurrence} {findNext : Nat → Option Nat} (hphase : job.phase = .found found)
    (hschedule : job.schedule = .cron findNext) : job.next e = some (delayUntil found.next e.now, some found) := by
  simp only [next, hphase, hschedule]

/-- What a round begins with. -/
theorem next_cases {delay : Nat} {occurrence : Option Occurrence} (h : job.next e = some (delay, occurrence)) :
    (job.phase = .looping ∧ occurrence = none ∧ ∃ seconds, job.schedule = .interval seconds ∧
        delay = seconds * nanosPerSec) ∨
      ∃ found findNext, job.phase = .found found ∧ occurrence = some found ∧ job.schedule = .cron findNext ∧
        delay = delayUntil found.next e.now := by
  rw [next] at h
  split at h
  · rename_i seconds hphase hschedule
    cases h
    exact .inl ⟨hphase, rfl, seconds, hschedule, rfl⟩
  · rename_i found findNext hphase hschedule
    cases h
    exact .inr ⟨found, findNext, hphase, rfl, hschedule, rfl⟩
  · cases h

@[simp] theorem win_schedule (start : Nat) (occurrence : Option Occurrence) (branch : Branch) :
    (job.win e start occurrence branch).schedule = job.schedule := by
  cases branch <;> rfl

@[simp] theorem win_rounds (start : Nat) (occurrence : Option Occurrence) (branch : Branch) :
    (job.win e start occurrence branch).rounds = job.rounds := by
  cases branch <;> rfl

theorem win_triggers (start : Nat) (occurrence : Option Occurrence) (branch : Branch) :
    (job.win e start occurrence branch).triggers =
      if branch = .sleep then job.triggers ++ [⟨e.now, occurrence⟩] else job.triggers := by
  cases branch <;> rfl

theorem win_phase (e : Surroundings) (job : Job) (start : Nat) (occurrence : Option Occurrence) (branch : Branch) :
    (job.win e start occurrence branch).phase = .selected start ∨
      (job.win e start occurrence branch).phase = .ended ∧ branch = .parentStop ∧ e.parent.value = true := by
  cases branch with
  | sleep => exact .inl rfl
  | jobStop => exact .inl rfl
  | parentStop =>
    rw [win]
    by_cases hvalue : e.parent.value
    · simp [hvalue]
    · simp [hvalue]

@[simp] theorem win_pending : (job.win e start occurrence branch).phase.pending = 0 := by
  obtain hphase | hphase := win_phase e job start occurrence branch
  · rw [hphase]
    rfl
  · rw [hphase.1]
    rfl

theorem Moves.schedule (h : job.Moves e job') : job'.schedule = job.schedule := by
  cases h with
  | start => exact win_schedule ..
  | finish => exact win_schedule ..
  | _ => rfl

end Job

/-- A step of the plugin: a job moves, or the jobs stay as they are. -/
inductive Moves (s : System) : System → Prop
  | job {j : Nat} {job job' : Job} (hj : s.jobs[j]? = some job) (hmoves : job.Moves s.surroundings job') :
      Moves s { s with jobs := s.jobs.set j job' }
  | signal {parent : Watch Bool} (hidle : s.shutdown = .idle)
      (hparent : s.parent.send true = some parent ∨ parent = s.parent ∧ ∀ job ∈ s.jobs, job.phase = .ended) :
      Moves s { s with parent, shutdown := .joining (List.range s.jobs.length) }
  | joined {j : Nat} {job : Job} {handles : List Nat} (hjoining : s.shutdown = .joining (j :: handles))
      (hj : s.jobs[j]? = some job) (hended : job.phase = .ended) : Moves s { s with shutdown := .joining handles }
  | returned (hjoining : s.shutdown = .joining []) : Moves s { s with shutdown := .returned }
  | abandoned {handles : List Nat} (hjoining : s.shutdown = .joining handles) :
      Moves s { s with orphaned := true, shutdown := .abandoned }
  | dropped (hshutdown : ∀ handles, s.shutdown ≠ .joining handles) :
      Moves s { s with parent := s.parent.close, orphaned := true }
  | elapsed (duration : Nat) : Moves s { s with now := s.now + duration }

variable {s s' : System} {e : Event}

theorem moves_of_jobStep {j : Nat} {f : Surroundings → Job → Option Job} (h : s.jobStep j f = some s')
    (hf : ∀ job job', f s.surroundings job = some job' → job.Moves s.surroundings job') : Moves s s' := by
  rw [System.jobStep] at h
  split at h
  · rename_i job hj
    obtain ⟨job', hjob', rfl⟩ := Option.map_eq_some_iff.mp h
    exact .job hj (hf job job' hjob')
  · cases h

theorem moves_of_step (h : step s e = some s') : Moves s s' := by
  cases e with
  | enter j won => exact moves_of_jobStep (f := fun e job => job.enter e won) h fun _ _ => Job.moves_of_enter
  | resolve j branch => exact moves_of_jobStep (f := fun e job => job.resolve e branch) h fun _ _ => Job.moves_of_resolve
  | advance j => exact moves_of_jobStep h fun _ _ => Job.moves_of_advance
  | shutdown =>
    obtain ⟨⟨hidle, hopen⟩, heq⟩ := Option.ite_none_right_eq_some.mp h
    cases heq
    refine .signal hidle ?_
    by_cases hall : s.jobs.all fun job => job.phase == .ended
    · rw [if_pos hall]
      exact .inr ⟨rfl, fun job hmem => eq_of_beq (List.all_eq_true.mp hall job hmem)⟩
    · rw [if_neg hall, Watch.send, hopen]
      exact .inl rfl
  | join =>
    simp only [step] at h
    split at h
    · rename_i hjoining
      cases h
      exact .returned hjoining
    · rename_i j handles hjoining
      obtain ⟨hended, heq⟩ := Option.ite_none_right_eq_some.mp h
      cases heq
      obtain ⟨job, hj, hphase⟩ := Option.map_eq_some_iff.mp hended
      exact .joined hjoining hj hphase
    · cases h
  | abandon =>
    simp only [step] at h
    split at h
    · rename_i handles hjoining
      cases h
      exact .abandoned hjoining
    · cases h
  | drop =>
    simp only [step] at h
    split at h
    · cases h
    · rename_i hnot
      cases h
      exact .dropped hnot
  | elapse duration =>
    cases h
    exact .elapsed duration

/-- What is kept when a job moves, and when anything changes around it, holds of every job. -/
theorem forall_jobs_of_moves {P : Surroundings → Job → Prop}
    (hmoves : ∀ e job job', P e job → job.Moves e job' → P e job')
    (haround : ∀ job, P s.surroundings job → s'.jobs = s.jobs → P s'.surroundings job)
    (h : ∀ job ∈ s.jobs, P s.surroundings job) (hstep : Moves s s') : ∀ job ∈ s'.jobs, P s'.surroundings job := by
  intro job' hmem
  cases hstep with
  | @job j job job₁ hj hjob =>
    obtain hold | rfl := List.mem_or_eq_of_mem_set hmem
    · exact h job' hold
    · exact hmoves _ _ _ (h job (List.mem_of_getElem? hj)) hjob
  | _ => exact haround job' (h job' hmem) rfl

theorem now_le_of_moves (h : Moves s s') : s.now ≤ s'.now := by
  cases h with
  | elapsed duration => exact Nat.le_add_right _ _
  | _ => exact Nat.le_refl _

end CronPlugin

end Lazydns
