import Lazydns.Lib.Machine
import Lazydns.Lib.Slots
import Mathlib.Data.Finset.Basic
import Mathlib.Data.Finset.Insert

/-!
# The task queue of the background refreshes

A call of `enqueue` puts the key of its task into `processing`, offers the task to the channel, and counts what came of it. A worker receives a task, runs it under a timeout, counts it, and takes its key out of `processing`. Each access to the set, to the channel or to a counter is a step of its own, and the steps of all calls and workers come in any order. A task is its key here; what its handler makes of it is said by the event.

The counters are 64 bits wide in the source and are not bounded here, nor is a handler that panics. Which tasks were accepted and executed, and which calls were refused, is noted beside the counters and not in the source.
-/

namespace Lazydns

namespace TaskQueue

/-- Without `success_rate`. -/
structure RefreshStats where
  enqueued : Nat
  processed : Nat
  rejected : Nat
  dedupSkipped : Nat
  success : Nat
  failed : Nat
  timeout : Nat
  deriving DecidableEq, Repr

namespace RefreshStats

def new : RefreshStats := ⟨0, 0, 0, 0, 0, 0, 0⟩

variable (stats : RefreshStats)

def recordEnqueued : RefreshStats := { stats with enqueued := stats.enqueued + 1 }

def recordRejected : RefreshStats := { stats with rejected := stats.rejected + 1 }

def recordDedupSkipped : RefreshStats := { stats with dedupSkipped := stats.dedupSkipped + 1 }

def recordProcessed : RefreshStats := { stats with processed := stats.processed + 1 }

def recordSuccess : RefreshStats := { stats with success := stats.success + 1 }

def recordFailed : RefreshStats := { stats with failed := stats.failed + 1 }

def recordTimeout : RefreshStats := { stats with timeout := stats.timeout + 1 }

/-- `saturating_sub` is the subtraction of natural numbers. -/
def queueDepth : Nat := stats.enqueued - (stats.processed + stats.rejected + stats.dedupSkipped)

end RefreshStats

inductive EnqueueError where
  | alreadyProcessing
  | queueFull
  | closed
  deriving DecidableEq, Repr

/-- What the calls and the workers share. With the last worker the receiver of the channel is gone. -/
structure Coordinator where
  processing : Finset String
  queue : List String
  capacity : Nat
  workerCount : Nat
  stats : RefreshStats
  accepted : List String
  executed : List String
  refused : List (String × EnqueueError)

/-- What a call of `enqueue` does next. -/
inductive CallStage where
  | claiming
  | skipping
  | sending
  | recording
  | retracting (error : EnqueueError)
  | rejecting
  deriving DecidableEq, Repr

structure Call where
  key : String
  stage : CallStage
  deriving DecidableEq, Repr

/-- The next access of a call, and what is left of the call behind it. -/
def enqueue (c : Coordinator) (key : String) : CallStage → Coordinator × Option CallStage
  | .claiming =>
    if key ∈ c.processing then ({ c with refused := c.refused ++ [(key, .alreadyProcessing)] }, some .skipping)
    else ({ c with processing := insert key c.processing }, some .sending)
  | .skipping => ({ c with stats := c.stats.recordDedupSkipped }, none)
  | .sending =>
    if c.workerCount = 0 then ({ c with refused := c.refused ++ [(key, .closed)] }, some (.retracting .closed))
    else if c.queue.length < c.capacity then
      ({ c with queue := c.queue ++ [key], accepted := c.accepted ++ [key] }, some .recording)
    else ({ c with refused := c.refused ++ [(key, .queueFull)] }, some (.retracting .queueFull))
  | .recording => ({ c with stats := c.stats.recordEnqueued }, none)
  | .retracting error =>
    ({ c with processing := c.processing.erase key }, if error = .queueFull then some .rejecting else none)
  | .rejecting => ({ c with stats := c.stats.recordRejected }, none)

/-- How the execution of a task has ended: with `Ok`, with an error, or not in time. -/
inductive Outcome where
  | success
  | failed
  | timeout
  deriving DecidableEq, Repr

/-- Where a worker is in its loop. -/
inductive Worker where
  | receiving
  | executing (key : String)
  | executed (key : String) (outcome : Outcome)
  | processed (key : String) (outcome : Outcome)
  | releasing (key : String) (success : Bool)
  | notifying (key : String) (success : Bool)
  | stopped
  deriving DecidableEq, Repr

def RefreshStats.recordOutcome (stats : RefreshStats) : Outcome → RefreshStats
  | .success => stats.recordSuccess
  | .failed => stats.recordFailed
  | .timeout => stats.recordTimeout

/-- What a worker does with a task that has been executed, access by access; the completion callback is the last. -/
def workerLoop (c : Coordinator) : Worker → Option (Coordinator × Worker)
  | .executed key outcome => some ({ c with stats := c.stats.recordProcessed }, .processed key outcome)
  | .processed key outcome =>
    some ({ c with stats := c.stats.recordOutcome outcome }, .releasing key (outcome == .success))
  | .releasing key success => some ({ c with processing := c.processing.erase key }, .notifying key success)
  | .notifying _ _ => some (c, .receiving)
  | _ => none

/-- `alive` until the coordinator is shut down. -/
structure System where
  coordinator : Coordinator
  calls : List Call
  workers : List Worker
  alive : Bool

def System.new (workerCount capacity : Nat) : System where
  coordinator := ⟨∅, [], capacity, workerCount, .new, [], [], []⟩
  calls := []
  workers := List.replicate workerCount .receiving
  alive := true

inductive Event where
  | enqueue (key : String)
  | call (i : Nat)
  | receive (w : Nat)
  | finish (w : Nat) (outcome : Outcome)
  | worker (w : Nat)
  | shutdown
  deriving DecidableEq, Repr

/-- The shutdown consumes the coordinator, so no call is in progress; a worker stops when it finds the queue empty after it. -/
def step (s : System) : Event → Option System
  | .enqueue key => if s.alive then some { s with calls := s.calls ++ [⟨key, .claiming⟩] } else none
  | .call i =>
    match s.calls[i]? with
    | some ⟨key, stage⟩ =>
      let (coordinator, next) := enqueue s.coordinator key stage
      some { s with coordinator, calls := Slots.replace s.calls i (next.map (Call.mk key)) }
    | none => none
  | .receive w =>
    match s.workers[w]?, s.coordinator.queue with
    | some .receiving, key :: queue =>
      some { s with coordinator := { s.coordinator with queue }, workers := s.workers.set w (.executing key) }
    | some .receiving, [] => if s.alive then none else some { s with workers := s.workers.set w .stopped }
    | _, _ => none
  | .finish w outcome =>
    match s.workers[w]? with
    | some (.executing key) =>
      some { s with
        coordinator := { s.coordinator with executed := s.coordinator.executed ++ [key] }
        workers := s.workers.set w (.executed key outcome) }
    | _ => none
  | .worker w =>
    match s.workers[w]? with
    | some worker =>
      (workerLoop s.coordinator worker).map fun (coordinator, worker) =>
        { s with coordinator, workers := s.workers.set w worker }
    | none => none
  | .shutdown => if s.alive ∧ s.calls = [] then some { s with alive := false } else none

def machine : Machine System Event := ⟨step⟩

end TaskQueue

end Lazydns
