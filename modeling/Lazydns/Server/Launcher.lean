import Lazydns.Lib.Machine

/-!
# Stopping the servers

A server runs in a task of its own. `spawn_server` keeps the handle of the task; the admin, the monitoring and the web server are spawned without. `wait_for_servers` takes the handles from the list and awaits one after the other, from the last, until the timeout fires. The future that waits is dropped then, with the handle it has taken, and the tasks of the handles that are left are aborted.

A task finishes at any time. The timeout fires when a poll of the waiting future has found nothing ready; the task whose handle it awaits may finish just then.

The tasks are numbered. A call notes how many there are when it begins, and which of them are running when its result is decided; neither is in the source.
-/

namespace Lazydns

namespace ServerLauncher

inductive ServerKind where
  | udp
  | tcp
  | doh
  | dot
  | doq
  | admin
  | monitoring
  | web
  deriving DecidableEq, Repr

/-- Whether the server is launched through `spawn_server`, which keeps the handle. -/
def ServerKind.kept : ServerKind → Bool
  | .udp | .tcp | .doh | .dot | .doq => true
  | .admin | .monitoring | .web => false

structure Task where
  kind : ServerKind
  finished : Bool
  aborted : Bool
  deriving DecidableEq, Repr

def Task.kept (t : Task) : Bool := t.kind.kept

/-- How far `wait_for_servers` has come. -/
inductive Wait where
  | idle
  | locking
  | popping
  | awaiting (i : Nat)
  | aborting
  | returned (result : Bool)
  deriving DecidableEq, Repr

structure System where
  tasks : List Task
  handles : List Nat
  /-- What is left of the handles that are waited for, the last one first. -/
  drain : List Nat
  wait : Wait
  launched : Nat
  late : List Nat
  deriving DecidableEq, Repr

def System.new : System := ⟨[], [], [], .idle, 0, []⟩

def System.running (s : System) : List Nat :=
  (List.range s.launched).filter fun i => s.tasks[i]?.any fun t => !t.finished

inductive Action where
  | launch (kind : ServerKind)
  | finish (i : Nat)
  | wait
  | lock
  | pop
  | join
  | timeout
  | abort
  deriving DecidableEq, Repr

def step (s : System) : Action → Option System
  | .launch kind =>
    some { s with
      tasks := s.tasks ++ [⟨kind, false, false⟩]
      handles := if kind.kept then s.handles ++ [s.tasks.length] else s.handles }
  | .finish i =>
    match s.tasks[i]? with
    | some t => if t.finished then none else some { s with tasks := s.tasks.set i { t with finished := true } }
    | none => none
  | .wait =>
    match s.wait with
    | .idle =>
      some { s with handles := [], drain := s.handles.reverse, wait := .locking, launched := s.tasks.length }
    | _ => none
  | .lock =>
    match s.wait with
    | .locking => some { s with wait := .popping }
    | _ => none
  | .pop =>
    match s.wait, s.drain with
    | .popping, i :: drain => some { s with drain, wait := .awaiting i }
    | .popping, [] => some { s with wait := .returned true, late := s.running }
    | _, _ => none
  | .join =>
    match s.wait with
    | .awaiting i =>
      if s.tasks[i]?.any Task.finished then some { s with wait := .popping } else none
    | _ => none
  | .timeout =>
    match s.wait with
    | .locking | .awaiting _ => some { s with wait := .aborting, late := s.running }
    | _ => none
  | .abort =>
    match s.wait, s.drain with
    | .aborting, i :: drain => some { s with drain, tasks := s.tasks.modify i fun t => { t with aborted := true } }
    | .aborting, [] => some { s with wait := .returned false }
    | _, _ => none

def machine : Machine System Action := ⟨step⟩

end ServerLauncher

end Lazydns
