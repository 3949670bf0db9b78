import Lazydns.Lib.Machine
import Lazydns.Plugin.World

/-!
# Health counters under concurrent calls

`record_success` and `record_failure` work on atomic counters, one atomic operation after another, and any number of calls move in between. The update of the average is a loop: it loads the average, and stores the new one if the average is still the one it loaded. Counters are 64 bits wide, and times are in microseconds.
-/

namespace Lazydns

namespace UpstreamHealth

/-- `record_success` with a response time, or `record_failure`. -/
inductive Record where
  | success (time : Nat)
  | failure
  deriving DecidableEq, Repr

/-- How far a call has come; a success remembers the count it found, and the average it loaded. -/
inductive Stage where
  | start
  | queried
  | counted (successCount : Nat)
  | loaded (successCount oldAvg : Nat)
  | done
  deriving DecidableEq, Repr

structure Call where
  record : Record
  stage : Stage
  deriving DecidableEq, Repr

structure System where
  health : UpstreamHealth
  calls : List Call
  deriving DecidableEq, Repr

/-- A call begins, or takes its next atomic step; the exchange of the update may also fail for no reason. -/
inductive Event where
  | call (record : Record)
  | step (i : Nat)
  | spurious (i : Nat)
  deriving DecidableEq, Repr

/-- The closure of `fetch_update`. -/
def newAvg (successCount oldAvg newTime : Nat) : Nat :=
  if successCount = 0 then newTime
  else (oldAvg * successCount + newTime) % 2 ^ 64 / ((successCount + 1) % 2 ^ 64)

/-- The next atomic step of a call. -/
def Call.step (h : UpstreamHealth) (call : Call) : Option (UpstreamHealth × Stage) :=
  match call.stage, call.record with
  | .start, _ => some ({ h with queries := (h.queries + 1) % 2 ^ 64 }, .queried)
  | .queried, .success _ =>
    some ({ h with successes := (h.successes + 1) % 2 ^ 64 }, .counted h.successes)
  | .queried, .failure => some ({ h with failures := (h.failures + 1) % 2 ^ 64 }, .done)
  | .counted successCount, .success _ => some (h, .loaded successCount h.avgResponseTime)
  | .loaded successCount oldAvg, .success time =>
    if h.avgResponseTime = oldAvg then
      some ({ h with avgResponseTime := newAvg successCount oldAvg (time % 2 ^ 64) }, .done)
    else some (h, .loaded successCount h.avgResponseTime)
  | _, _ => none

namespace System

def new : System := ⟨.new, []⟩

/-- Nothing but the counters and the stage of one call changes. -/
def update (s : System) (i : Nat) (call : Call) (h : UpstreamHealth) (stage : Stage) : System where
  health := h
  calls := s.calls.set i { call with stage }

def step (s : System) : Event → Option System
  | .call record => some { s with calls := s.calls ++ [⟨record, .start⟩] }
  | .step i => do
    let call ← s.calls[i]?
    let (h, stage) ← call.step s.health
    return s.update i call h stage
  | .spurious i => do
    let call ← s.calls[i]?
    match call.stage with
    | .loaded successCount _ => some (s.update i call s.health (.loaded successCount s.health.avgResponseTime))
    | _ => none

def machine : Machine System Event := ⟨step⟩

def Quiescent (s : System) : Prop := ∀ call ∈ s.calls, call.stage = .done

def times (s : System) : List Nat :=
  s.calls.filterMap fun call =>
    match call.record, call.stage with
    | .success time, .done => some time
    | _, _ => none

end System

/-- The next step of the call overflows no counter and no sum. -/
def Call.NoOverflow (h : UpstreamHealth) (call : Call) : Prop :=
  match call.stage, call.record with
  | .start, _ => h.queries + 1 < 2 ^ 64
  | .queried, .success _ => h.successes + 1 < 2 ^ 64
  | .queried, .failure => h.failures + 1 < 2 ^ 64
  | .loaded successCount oldAvg, .success time =>
    time < 2 ^ 64 ∧ successCount + 1 < 2 ^ 64 ∧ oldAvg * successCount + time < 2 ^ 64
  | _, _ => True

instance (h : UpstreamHealth) : (call : Call) → Decidable (call.NoOverflow h)
  | ⟨_, .start⟩ => inferInstanceAs (Decidable (_ < _))
  | ⟨.success _, .queried⟩ => inferInstanceAs (Decidable (_ < _))
  | ⟨.failure, .queried⟩ => inferInstanceAs (Decidable (_ < _))
  | ⟨.success _, .loaded _ _⟩ => inferInstanceAs (Decidable (_ < _ ∧ _ < _ ∧ _ < _))
  | ⟨.failure, .loaded _ _⟩ => isTrue trivial
  | ⟨_, .counted _⟩ => isTrue trivial
  | ⟨_, .done⟩ => isTrue trivial

/-- No step of a run overflows. -/
def NoOverflow (s : System) (e : Event) (_ : System) : Prop :=
  match e with
  | .step i => ∀ call ∈ s.calls[i]?, call.NoOverflow s.health
  | _ => True

instance (s s' : System) : (e : Event) → Decidable (NoOverflow s e s')
  | .step i => inferInstanceAs (Decidable (∀ call ∈ s.calls[i]?, call.NoOverflow s.health))
  | .call _ => isTrue trivial
  | .spurious _ => isTrue trivial

end UpstreamHealth

end Lazydns
