import Lazydns.Lib.Machine
import Lazydns.Lib.Watch

/-!
# Cron jobs

Each job of the cron plugin is a task of its own, and its loop goes round once for each trigger. It works out how long to wait, and then waits for this time, for the plugin's stop channel and for a stop channel of its own, all at once. A round that is over too soon is followed by a pause. The shutdown of the plugin writes to its stop channel and then awaits the tasks, one by one. Nothing is ever written to the channel of a job.

Times are in nanoseconds, and the wall clock and the timer agree. When a `select!` is entered its branches are looked at in no time; which of those that are ready wins is said by the event, and so is when it is looked at again. What a trigger does in a task of its own is left out, and so are panics. The crontab is a function from a time to the next occurrence, `none` for each of its errors.
-/

namespace Lazydns

namespace CronPlugin

inductive ScheduleDef where
  | interval (seconds : Nat)
  | cron (findNext : Nat → Option Nat)

def nanosPerMilli : Nat := 1000000

def nanosPerSec : Nat := 1000000000

/-- The shortest wait for an occurrence, and the pause after a round that was shorter. -/
def minDelay : Nat := 10 * nanosPerMilli

/-- The wait at `now` for an occurrence, in whole milliseconds. -/
def delayUntil (next now : Nat) : Nat :=
  let ms := (next - now) / nanosPerMilli
  if ms = 0 then minDelay else ms * nanosPerMilli

/-- An occurrence, and the time on the clock when it was looked up. -/
structure Occurrence where
  read : Nat
  next : Nat
  deriving DecidableEq, Repr

inductive Phase where
  | looping
  | found (occurrence : Occurrence)
  | selecting (start wake : Nat) (occurrence : Option Occurrence)
  | selected (start : Nat)
  | pausing (wake : Nat)
  | ended
  deriving DecidableEq, Repr

structure Trigger where
  time : Nat
  occurrence : Option Occurrence
  deriving DecidableEq, Repr

/-- `seen` is the version of the plugin's stop channel that the job has seen. The times at which its `select!` was entered and its triggers are noted beside it. -/
structure Job where
  schedule : ScheduleDef
  seen : Nat
  phase : Phase
  rounds : List Nat
  triggers : List Trigger

def Job.new (schedule : ScheduleDef) : Job := ⟨schedule, 0, .looping, [], []⟩

inductive Branch where
  | sleep
  | parentStop
  | jobStop
  deriving DecidableEq, Repr

/-- What a job sees of the plugin: the clock, the stop channel, and whether the sender of its own stop channel is gone. -/
structure Surroundings where
  now : Nat
  parent : Watch Bool
  orphaned : Bool

namespace Job

variable (e : Surroundings) (job : Job)

/-- `changed` is ready for another version, and when there is no sender left. -/
def ready (wake : Nat) : Branch → Bool
  | .sleep => decide (wake ≤ e.now)
  | .parentStop => job.seen != e.parent.version || e.parent.closed
  | .jobStop => e.orphaned

/-- A branch that is ready has won. -/
def win (start : Nat) (occurrence : Option Occurrence) : Branch → Job
  | .sleep => { job with phase := .selected start, triggers := job.triggers ++ [⟨e.now, occurrence⟩] }
  | .parentStop =>
    { job with seen := e.parent.version, phase := if e.parent.value then .ended else .selected start }
  | .jobStop => { job with phase := .selected start }

/-- The wait that a round begins with, and what it is for. -/
def next : Option (Nat × Option Occurrence) :=
  match job.phase, job.schedule with
  | .looping, .interval seconds => some (seconds * nanosPerSec, none)
  | .found occurrence, .cron _ => some (delayUntil occurrence.next e.now, some occurrence)
  | _, _ => none

/-- The `select!` is entered: a branch that is ready wins at once, and only if there is none the job waits. -/
def enter (won : Option Branch) : Option Job :=
  (job.next e).bind fun (delay, occurrence) =>
    let wake := e.now + delay
    let job := { job with rounds := job.rounds ++ [e.now] }
    match won with
    | some branch => if job.ready e wake branch then some (job.win e e.now occurrence branch) else none
    | none =>
      if job.ready e wake .sleep || job.ready e wake .parentStop || job.ready e wake .jobStop then none
      else some { job with phase := .selecting e.now wake occurrence }

/-- A branch of a `select!` that was waited for. -/
def resolve (branch : Branch) : Option Job :=
  match job.phase with
  | .selecting start wake occurrence =>
    if job.ready e wake branch then some (job.win e start occurrence branch) else none
  | _ => none

/-- The rest of the loop. -/
def advance : Option Job :=
  match job.phase, job.schedule with
  | .looping, .cron findNext =>
    match findNext e.now with
    | some next => some { job with phase := .found ⟨e.now, next⟩ }
    -- no upcoming schedule items, or a time that cannot be read
    | none => some { job with phase := .ended }
  | .selected start, _ =>
    some { job with phase := if e.now - start < minDelay then .pausing (e.now + minDelay) else .looping }
  | .pausing wake, _ => if wake ≤ e.now then some { job with phase := .looping } else none
  | _, _ => none

end Job

/-- How far the shutdown of the plugin has come: the handles it has still to await. It may be given up. -/
inductive Shutdown where
  | idle
  | joining (handles : List Nat)
  | returned
  | abandoned
  deriving DecidableEq, Repr

structure System where
  now : Nat
  parent : Watch Bool
  orphaned : Bool
  jobs : List Job
  shutdown : Shutdown

/-- `init` spawns a job for each schedule. -/
def System.new (schedules : List ScheduleDef) : System where
  now := 0
  parent := .new false
  orphaned := false
  jobs := schedules.map .new
  shutdown := .idle

def System.surroundings (s : System) : Surroundings := ⟨s.now, s.parent, s.orphaned⟩

inductive Event where
  | enter (j : Nat) (won : Option Branch)
  | resolve (j : Nat) (branch : Branch)
  | advance (j : Nat)
  | shutdown
  | join
  | abandon
  | drop
  | elapse (duration : Nat)
  deriving DecidableEq, Repr

/-- What the event makes of a job. -/
def System.jobStep (s : System) (j : Nat) (f : Surroundings → Job → Option Job) : Option System :=
  match s.jobs[j]? with
  | some job => (f s.surroundings job).map fun job' => { s with jobs := s.jobs.set j job' }
  | none => none

/-- The shutdown is called once, and `send` fails when there is no job left to receive it. The stop channels of the jobs go with their handles. -/
def step (s : System) : Event → Option System
  | .enter j won => s.jobStep j fun e job => job.enter e won
  | .resolve j branch => s.jobStep j fun e job => job.resolve e branch
  | .advance j => s.jobStep j fun e job => job.advance e
  | .shutdown =>
    if s.shutdown = .idle ∧ s.parent.closed = false then
      let parent := if s.jobs.all fun job => job.phase == .ended then s.parent else (s.parent.send true).getD s.parent
      some { s with parent, shutdown := .joining (List.range s.jobs.length) }
    else none
  | .join =>
    match s.shutdown with
    | .joining [] => some { s with shutdown := .returned }
    | .joining (j :: handles) =>
      if (s.jobs[j]?.map Job.phase) = some .ended then some { s with shutdown := .joining handles } else none
    | _ => none
  | .abandon =>
    match s.shutdown with
    | .joining _ => some { s with orphaned := true, shutdown := .abandoned }
    | _ => none
  | .drop =>
    match s.shutdown with
    | .joining _ => none
    | _ => some { s with parent := s.parent.close, orphaned := true }
  | .elapse duration => some { s with now := s.now + duration }

def machine : Machine System Event := ⟨step⟩

end CronPlugin

end Lazydns
