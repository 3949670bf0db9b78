import Lazydns.Lib.Machine
import Mathlib.Data.Finset.Basic
import Mathlib.Data.Finset.Insert

/-!
# Background refreshes, access by access

A lookup that wants an entry refreshed puts its key into `refreshing_keys` and spawns a task. The task puts the key into the coordinator's `processing` and offers it to the queue; if it is refused at any point it takes the key out again. A worker takes a key from the queue, refreshes the entry, takes the key out of `processing` and calls the completion callback, which takes it out of `refreshing_keys`. Here every access to one of the two sets or to the queue is a step of its own, and the steps of all tasks and workers come in any order. The mutex around the coordinator, which allows fewer orders, is left out.
-/

namespace Lazydns

namespace Refresh

/-- What is left to do for a spawned task. -/
inductive TaskStage where
  | enqueuing
  | claiming
  | sending
  | retracting
  | sleeping
  | rejected
  | done
  deriving DecidableEq, Repr

structure Task where
  key : String
  stage : TaskStage
  deriving DecidableEq, Repr

inductive Worker where
  | idle
  | executing (key : String)
  | executed (key : String) (success : Bool)
  | notifying (key : String) (success : Bool)
  | stopped
  deriving DecidableEq, Repr

/-- `available` says whether the cache still has its coordinator, `closed` whether the channel is closed. -/
structure System where
  refreshingKeys : Finset String
  processing : Finset String
  available : Bool
  queue : List String
  capacity : Nat
  closed : Bool
  tasks : Nat → Option Task
  workerCount : Nat
  workers : Nat → Worker

/-- A cache that has just been built, with its coordinator or without one. With the last worker the receiver of the channel is gone. -/
def System.new (available : Bool) (workerCount capacity : Nat) : System where
  refreshingKeys := ∅
  processing := ∅
  available
  queue := []
  capacity
  closed := workerCount == 0
  tasks := fun _ => none
  workerCount
  workers := fun _ => .idle

inductive Event where
  | lookup (t : Nat) (key : String) (hasHandler : Bool)
  | task (t : Nat)
  | receive (w : Nat)
  | finish (w : Nat) (success : Bool)
  | release (w : Nat)
  | complete (w : Nat)
  | shutdown
  | close

namespace System

variable (s : System)

def setStage (t : Nat) (key : String) (stage : TaskStage) : System :=
  { s with tasks := Function.update s.tasks t (some ⟨key, stage⟩) }

def setWorker (w : Nat) (worker : Worker) : System :=
  { s with workers := Function.update s.workers w worker }

/-- `spawn_background_refresh`. Without a handler the task sleeps and drops the entry. -/
def lookup (t : Nat) (key : String) (hasHandler : Bool) : System :=
  if key ∈ s.refreshingKeys then s
  else
    { s with refreshingKeys := insert key s.refreshingKeys }.setStage t key
      (if hasHandler then .enqueuing else .sleeping)

/-- The next access of a spawned task; `RefreshCoordinator::enqueue` is its part from `claiming` to `retracting`. -/
def taskStep (t : Nat) (key : String) : TaskStage → Option System
  | .enqueuing => some (s.setStage t key (if s.available then .claiming else .rejected))
  | .claiming =>
    if key ∈ s.processing then some (s.setStage t key .rejected)
    else some ({ s with processing := insert key s.processing }.setStage t key .sending)
  | .sending =>
    if s.closed = false ∧ s.queue.length < s.capacity then
      some ({ s with queue := s.queue ++ [key] }.setStage t key .done)
    else some (s.setStage t key .retracting)
  | .retracting => some ({ s with processing := s.processing.erase key }.setStage t key .rejected)
  | .sleeping => some (s.setStage t key .rejected)
  | .rejected => some ({ s with refreshingKeys := s.refreshingKeys.erase key }.setStage t key .done)
  | .done => none

end System

/-- A worker stops when the channel is closed and empty; at the shutdown the cache gives its coordinator away before the channel is closed. -/
def step (s : System) : Event → Option System
  | .lookup t key hasHandler =>
    match s.tasks t with
    | none => some (s.lookup t key hasHandler)
    | some _ => none
  | .task t =>
    match s.tasks t with
    | some ⟨key, stage⟩ => s.taskStep t key stage
    | none => none
  | .receive w =>
    if w < s.workerCount ∧ s.workers w = .idle then
      match s.queue with
      | key :: rest => some ({ s with queue := rest }.setWorker w (.executing key))
      | [] => if s.closed then some (s.setWorker w .stopped) else none
    else none
  | .finish w success =>
    match s.workers w with
    | .executing key => some (s.setWorker w (.executed key success))
    | _ => none
  | .release w =>
    match s.workers w with
    | .executed key success =>
      some ({ s with processing := s.processing.erase key }.setWorker w (.notifying key success))
    | _ => none
  | .complete w =>
    match s.workers w with
    | .notifying key _ =>
      some ({ s with refreshingKeys := s.refreshingKeys.erase key }.setWorker w .idle)
    | _ => none
  | .shutdown => if s.available then some { s with available := false } else none
  | .close => if s.available = false ∧ s.closed = false then some { s with closed := true } else none

def machine : Machine System Event := ⟨step⟩

end Refresh

end Lazydns
