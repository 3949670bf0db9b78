import Mathlib.Logic.Function.Basic
import Lazydns.Lib.Machine

/-!
# Watching files

`spawn_file_watcher` starts a loop that takes change events from a channel. The time of an event is recorded for its file, under a lock, and a debounce task is spawned unless the file has one. The task sleeps, takes the lock, and if the file has been quiet for long enough calls back, under a second lock, and removes the record before it lets go of both; otherwise it sleeps again. The loop ends when it is told so by a second channel.

The loop, the tasks and the owner of the handle take steps in any order, and time passes between them. A task that waits for a lock or for time can go on any time after it is free or over. The system keeps a log of what has been recorded and called back, the latest first. This is not in the source: it is for the statements about a run.
-/

namespace Lazydns

namespace FileWatcher

inductive EventKind where
  | access
  | create
  | modify
  | remove
  | other
  deriving DecidableEq, Repr

structure Event (Path : Type) where
  kind : EventKind
  paths : List Path
  deriving DecidableEq, Repr

inductive Loop (Path : Type) where
  | selecting
  /-- Some paths of an event are left to look at. -/
  | handling (paths : List Path) (removed : Bool)
  /-- An event at this time waits for the lock of the records. -/
  | recording (path : Path) (now : Nat) (removed : Bool)
  | rewatching (path : Path) (alreadyScheduled : Bool) (wake : Nat)
  | scheduling (path : Path) (alreadyScheduled : Bool)
  | ended
  deriving DecidableEq, Repr

inductive Phase where
  | sleeping (wake : Nat)
  | locking
  | checking
  /-- The file is quiet; the task waits for the lock of the callback. -/
  | quiesced
  | calling
  | ended
  deriving DecidableEq, Repr

structure Task (Path : Type) where
  path : Path
  phase : Phase
  deriving DecidableEq, Repr

/-- The channel that tells the loop to end: its value, whether the loop has yet to see it, and whether the handle is still there to send. -/
structure StopChannel where
  value : Bool
  unseen : Bool
  sender : Bool
  deriving DecidableEq, Repr

inductive Entry (Path : Type) where
  | recorded (path : Path) (time : Nat)
  | called (path : Path) (time : Nat)
  deriving DecidableEq, Repr

structure System (Path : Type) where
  now : Nat
  events : List (Event Path)
  closed : Bool
  stop : StopChannel
  loop : Loop Path
  pendingMap : Path → Option Nat
  mapLock : Option Nat
  callbackLock : Option Nat
  tasks : List (Task Path)
  log : List (Entry Path)

/-- Times are in nanoseconds. -/
def millis (ms : Nat) : Nat := ms * 1000000

/-- The files, by their canonical paths, and the time for which one must be quiet. -/
structure Watcher (Path : Type) where
  files : List Path
  debounceMs : Nat

def Watcher.debounce {Path : Type} (w : Watcher Path) : Nat := millis w.debounceMs

/-- The owner of the handle signals or drops it; the channel of events is closed if the `notify` library drops its end. Looking at a path of an event gives its canonical path, if it exists. -/
inductive Action (Path : Type) where
  | elapse (duration : Nat)
  | notify (event : Event Path)
  | close
  | signal
  | drop
  | select
  | canonicalize (path : Option Path)
  | record
  | rewatch
  | schedule
  | wake (i : Nat)
  | lock (i : Nat)
  | check (i : Nat)
  | call (i : Nat)
  | finish (i : Nat)
  deriving DecidableEq, Repr

variable {Path : Type}

/-- The `for` over the paths of an event. -/
def Loop.next (paths : List Path) (removed : Bool) : Loop Path :=
  match paths with
  | [] => .selecting
  | _ :: _ => .handling paths removed

/-- One iteration of `select!`, which looks at the events first; none if it has to wait. -/
def System.select (s : System Path) : Option (System Path) :=
  match s.events with
  | event :: events => some { s with events, loop := .next event.paths (event.kind = .remove) }
  | [] =>
    if s.closed then some { s with loop := .ended }
    else if s.stop.unseen then
      some { s with stop := { s.stop with unseen := false }, loop := if s.stop.value then .ended else .selecting }
    -- Without a sender `changed` returns an error at once, and the value is read all the same.
    else if !s.stop.sender then some { s with loop := if s.stop.value then .ended else .selecting }
    else none

def System.setPhase (s : System Path) (i : Nat) (path : Path) (phase : Phase) : System Path :=
  { s with tasks := s.tasks.set i ⟨path, phase⟩ }

variable [DecidableEq Path] (w : Watcher Path)

def step (s : System Path) : Action Path → Option (System Path)
  | .elapse duration => some { s with now := s.now + duration }
  | .notify event =>
    if s.closed = false ∧ s.events.length < 100 ∧ (event.kind = .modify ∨ event.kind = .create ∨ event.kind = .remove) then
      some { s with events := s.events ++ [event] }
    else none
  | .close => some { s with closed := true }
  | .signal => if s.stop.sender then some { s with stop := { s.stop with value := true, unseen := true } } else none
  | .drop => some { s with stop := { s.stop with sender := false } }
  | .select =>
    match s.loop with
    | .selecting => s.select
    | _ => none
  | .canonicalize canonical =>
    match s.loop with
    | .handling (_ :: paths) removed =>
      match canonical.filter (· ∈ w.files) with
      | some path => some { s with loop := .recording path s.now removed }
      | none => some { s with loop := .next paths removed }
    | _ => none
  | .record =>
    match s.loop, s.mapLock with
    | .recording path now removed, none =>
      let alreadyScheduled := (s.pendingMap path).isSome
      some { s with
        pendingMap := Function.update s.pendingMap path (some now)
        loop := if removed then .rewatching path alreadyScheduled (s.now + millis 50) else .scheduling path alreadyScheduled
        log := .recorded path now :: s.log }
    | _, _ => none
  | .rewatch =>
    match s.loop with
    | .rewatching path alreadyScheduled wake =>
      if wake ≤ s.now then some { s with loop := .scheduling path alreadyScheduled } else none
    | _ => none
  | .schedule =>
    match s.loop with
    | .scheduling path alreadyScheduled =>
      some { s with
        tasks := if alreadyScheduled then s.tasks else s.tasks ++ [⟨path, .sleeping (s.now + w.debounce)⟩]
        loop := .selecting }
    | _ => none
  | .wake i =>
    match s.tasks[i]? with
    | some ⟨path, .sleeping wake⟩ => if wake ≤ s.now then some (s.setPhase i path .locking) else none
    | _ => none
  | .lock i =>
    match s.tasks[i]?, s.mapLock with
    | some ⟨path, .locking⟩, none => some { s.setPhase i path .checking with mapLock := some i }
    | _, _ => none
  | .check i =>
    match s.tasks[i]? with
    | some ⟨path, .checking⟩ =>
      match s.pendingMap path with
      | some time =>
        if w.debounce ≤ s.now - time then some (s.setPhase i path .quiesced)
        else some { s.setPhase i path (.sleeping (s.now + w.debounce)) with mapLock := none }
      | none => some { s.setPhase i path .ended with mapLock := none }
    | _ => none
  | .call i =>
    match s.tasks[i]?, s.callbackLock with
    | some ⟨path, .quiesced⟩, none =>
      some { s.setPhase i path .calling with callbackLock := some i, log := .called path s.now :: s.log }
    | _, _ => none
  | .finish i =>
    match s.tasks[i]? with
    | some ⟨path, .calling⟩ =>
      some { s.setPhase i path .ended with
        pendingMap := Function.update s.pendingMap path none, callbackLock := none, mapLock := none }
    | _ => none

def machine : Machine (System Path) (Action Path) := ⟨step w⟩

/-- The loop does not begin if the `notify` library has no watcher. -/
def System.start (created : Bool) : System Path where
  now := 0
  events := []
  closed := false
  stop := ⟨false, false, true⟩
  loop := if created then .selecting else .ended
  pendingMap := fun _ => none
  mapLock := none
  callbackLock := none
  tasks := []
  log := []

end FileWatcher

end Lazydns
