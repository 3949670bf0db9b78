import Lazydns.Lib.Gate
import Lazydns.Lib.Machine
import Lazydns.Lib.Watch

/-!
# The loops that accept requests

The UDP, the TCP and the DoT server wait for the next request or connection and for the shutdown at once. Each request that comes takes a permit and is handled in a task of its own, or is dropped when no permit is left; an error of the socket is skipped. When the shutdown is seen the loop ends, and the server waits for the permits to come back, but not longer than ten seconds.

`await_shutdown` begins anew in every round. It reads the bus, and then waits for other versions of it; when the sender is gone without a signal it waits forever. Its reads are separate steps, and anything may be sent in between.
-/

namespace Lazydns

/-- How far `await_shutdown` has come. -/
inductive AwaitShutdown where
  | start
  | changing (seen : Nat)
  | reading (seen : Nat)
  | forever
  | resolved
  deriving DecidableEq, Repr

/-- The next step of `await_shutdown`; `none` while it waits. -/
def AwaitShutdown.step (bus : Watch Bool) : AwaitShutdown → Option AwaitShutdown
  | .start => some (if bus.value then .resolved else .changing bus.version)
  | .changing seen =>
    if seen ≠ bus.version then some (.reading bus.version)
    -- sender dropped without a signal: serve forever
    else if bus.closed then some .forever
    else none
  | .reading seen => some (if bus.value then .resolved else .changing seen)
  | .forever | .resolved => none

namespace AcceptLoop

inductive Phase where
  | accepting (shutdown : AwaitShutdown)
  /-- The loop was left at `since`, and the permits are looked at again at `wake`. -/
  | draining (since wake : Nat)
  | stopped (since time : Nat)
  deriving DecidableEq, Repr

/-- What the loop of a server goes by. -/
structure Limits where
  maxConnections : Nat
  drainTimeout : Nat
  deriving DecidableEq, Repr

/-- The pause between two looks at the permits. -/
def drainPause : Nat := 25

variable {ι σ τ ε α : Type}

structure System (ι σ τ α : Type) where
  now : Nat
  bus : Watch Bool
  gate : Gated ι σ τ α
  phase : Phase

/-- What happens to a server: a request is received or the socket fails, `await_shutdown` or the wait for the permits goes on, a task takes a step or returns its permit, the bus is written or its sender dropped, time passes. -/
inductive Action (ι τ ε : Type) where
  | receive (i : ι) (t : τ)
  | fail
  | awaitShutdown
  | drain
  | task (event : Event ι τ ε)
  | release (i : ι)
  | send (value : Bool)
  | close
  | elapse (duration : Nat)

def System.new (limits : Limits) (s : σ) : System ι σ τ α where
  now := 0
  bus := .new false
  gate := .new s limits.maxConnections
  phase := .accepting .start

/-- `drain_permits`: the permits are looked at when the pause is over, and the timeout when they are not all there. -/
def drainPermits (limits : Limits) (s : System ι σ τ α) (since wake : Nat) : Phase :=
  if wake ≤ s.now ∧ limits.maxConnections ≤ s.gate.available then .stopped since s.now
  else if since + limits.drainTimeout ≤ s.now then .stopped since s.now
  else .draining since (if wake ≤ s.now then s.now + drainPause else wake)

variable [DecidableEq ι] (S : Service σ τ ε α) (limits : Limits)

def step (s : System ι σ τ α) : Action ι τ ε → Option (System ι σ τ α)
  | .receive i t =>
    match s.phase with
    | .accepting _ =>
      if (s.gate.pool.jobs i).isNone then some { s with gate := s.gate.enter S i t, phase := .accepting .start }
      else none
    | _ => none
  | .fail =>
    match s.phase with
    | .accepting _ => some { s with phase := .accepting .start }
    | _ => none
  | .awaitShutdown =>
    match s.phase with
    | .accepting shutdown =>
      (shutdown.step s.bus).map fun shutdown' =>
        { s with phase := if shutdown' = .resolved then .draining s.now s.now else .accepting shutdown' }
    | _ => none
  | .drain =>
    match s.phase with
    | .draining since wake => some { s with phase := drainPermits limits s since wake }
    | _ => none
  | .task event => if event.free then some { s with gate := s.gate.task S event } else none
  | .release i => (s.gate.release i).map fun gate => { s with gate }
  | .send value => (s.bus.send value).map fun bus => { s with bus }
  | .close => some { s with bus := s.bus.close }
  | .elapse duration => some { s with now := s.now + duration }

def machine : Machine (System ι σ τ α) (Action ι τ ε) := ⟨step S limits⟩

end AcceptLoop

/-- `UdpServer::run`. -/
def UdpServer.limits (maxConnections : Nat) : AcceptLoop.Limits := ⟨maxConnections, 10000⟩

/-- `TcpServer::run`. -/
def TcpServer.limits (maxConnections : Nat) : AcceptLoop.Limits := ⟨maxConnections, 10000⟩

/-- `DotServer::run` and `DotServer::new`. -/
def DotServer.limits : AcceptLoop.Limits := ⟨1000, 10000⟩

def DotServer.withMaxConnections (max : Nat) : AcceptLoop.Limits := { DotServer.limits with maxConnections := max }

end Lazydns
