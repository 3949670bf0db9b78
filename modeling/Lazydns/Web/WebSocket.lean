import Lazydns.Lib.Ticker
import Lazydns.Lib.Machine
import Lazydns.Lib.Slots

/-!
# The connections for metrics

A client that has upgraded to a WebSocket is greeted, and then served in a loop that waits for its messages, for the next update, and for the next heartbeat. Whichever of them is ready is handled to its end, messages are sent one at a time, and a send takes as long as it takes and may fail. At a heartbeat the connection is closed if the client has given no sign of life for longer than the timeout.

Times are in nanoseconds. What a metrics update says, and how texts are read, is left to the web library; a message is given as it was read. When and why a loop was left, and what was sent and received, is noted beside the connection and not in the source.
-/

namespace Lazydns

namespace WebSocket

def nanosPerSec : Nat := 1000000000

inductive ClientMessage where
  | subscribe (topics : List String)
  | unsubscribe (topics : List String)
  | ping
  deriving DecidableEq, Repr

/-- What `receiver.next()` comes to. A text is no message if it cannot be read as one. -/
inductive Incoming where
  | text (message : Option ClientMessage)
  | ping
  | pong
  | other
  | close
  | error
  | ended
  deriving DecidableEq, Repr

/-- What is being sent: an answer to a text, a pong to a ping, an update, or the ping of a heartbeat. -/
inductive Outgoing where
  | answer
  | pong
  | metrics
  | ping
  deriving DecidableEq, Repr

/-- Why a loop was left: the client went, something could not be sent, or there was no sign of life. -/
inductive Reason where
  | client
  | failed
  | timedOut
  deriving DecidableEq, Repr

inductive Phase where
  | upgraded
  | greeting
  | waiting
  | sending (message : Outgoing)
  | leaving (time : Nat) (reason : Reason)
  | closed (time : Nat) (reason : Reason)
  deriving DecidableEq, Repr

structure Config where
  heartbeatSecs : Nat
  timeoutSecs : Nat
  deriving DecidableEq, Repr

/-- A message that was read, or an update that was due and was sent or not. -/
inductive Noted where
  | message (message : ClientMessage)
  | update (shown : Bool)
  deriving DecidableEq, Repr

structure Connection where
  phase : Phase
  subscribedTopics : List String
  updateInterval : Ticker
  heartbeatInterval : Ticker
  lastPong : Nat
  begun : Nat
  log : List Noted
  signs : List Nat
  beats : List Nat
  deriving DecidableEq, Repr

def Connection.new : Connection := ⟨.upgraded, [], ⟨0, 0⟩, ⟨0, 0⟩, 0, 0, [], [], []⟩

/-- The topics that are not subscribed to yet are put at the end. -/
def subscribe (subscribed : List String) (topics : List String) : List String :=
  topics.foldl (fun subscribed topic => if topic ∈ subscribed then subscribed else subscribed ++ [topic]) subscribed

/-- `retain`. -/
def unsubscribe (subscribed : List String) (topics : List String) : List String :=
  subscribed.filter fun topic => topic ∉ topics

namespace Connection

variable (config : Config) (now : Nat) (c : Connection)

def leave (reason : Reason) : Connection := { c with phase := .leaving now reason }

/-- The client has given a sign of life. -/
def alive : Connection := { c with lastPong := now, signs := c.signs ++ [now] }

/-- The loop begins with the first topic, and with both intervals. -/
def beginLoop : Connection :=
  { c with
    phase := .waiting
    subscribedTopics := ["overview"]
    updateInterval := .start now nanosPerSec
    heartbeatInterval := .start now (config.heartbeatSecs * nanosPerSec)
    lastPong := now
    begun := now
    signs := [now] }

def note (noted : Noted) : Connection := { c with log := c.log ++ [noted] }

def receive : Incoming → Connection
  | .text (some (.subscribe topics)) =>
    { c.note (.message (.subscribe topics)) with subscribedTopics := subscribe c.subscribedTopics topics }
  | .text (some (.unsubscribe topics)) =>
    { c.note (.message (.unsubscribe topics)) with subscribedTopics := unsubscribe c.subscribedTopics topics }
  | .text (some .ping) => { (c.note (.message .ping)).alive now with phase := .sending .answer }
  | .text none => { c with phase := .sending .answer }
  | .ping => { c with phase := .sending .pong }
  | .pong => c.alive now
  | .other => c
  | .close | .error | .ended => c.leave now .client

def update : Connection :=
  let c := { c with updateInterval := c.updateInterval.tick }
  if "overview" ∈ c.subscribedTopics then { c.note (.update true) with phase := .sending .metrics }
  else c.note (.update false)

def heartbeat : Connection :=
  let c := { c with heartbeatInterval := c.heartbeatInterval.tick }
  if now - c.lastPong > config.timeoutSecs * nanosPerSec then c.leave now .timedOut
  else { c with phase := .sending .ping, beats := c.beats ++ [now] }

/-- A send has ended. That an answer could not be sent is not looked at. -/
def sent (ok : Bool) : Outgoing → Connection
  | .answer => { c with phase := .waiting }
  | .pong => if ok then { c.alive now with phase := .waiting } else c.leave now .failed
  | .metrics | .ping => if ok then { c with phase := .waiting } else c.leave now .failed

end Connection

structure System where
  config : Config
  now : Nat
  wsConnections : Nat
  connections : List Connection
  deriving DecidableEq, Repr

def System.new (config : Config) : System := ⟨config, 0, 0, []⟩

/-- `count` is the addition to the counter or the subtraction from it. -/
inductive Event where
  | elapse (duration : Nat)
  | upgrade
  | count (i : Nat)
  | receive (i : Nat) (incoming : Incoming)
  | update (i : Nat)
  | heartbeat (i : Nat)
  | sent (i : Nat) (ok : Bool)
  deriving DecidableEq, Repr

def System.setConnection (s : System) (i : Nat) (c : Connection) : System :=
  { s with connections := s.connections.set i c }

def step (s : System) : Event → Option System
  | .elapse duration => some { s with now := s.now + duration }
  | .upgrade => some { s with connections := s.connections ++ [.new] }
  | .count i =>
    s.connections[i]?.bind fun c =>
      match c.phase with
      | .upgraded => some { s.setConnection i { c with phase := .greeting } with wsConnections := s.wsConnections + 1 }
      | .leaving time reason =>
        some { s.setConnection i { c with phase := .closed time reason } with wsConnections := s.wsConnections - 1 }
      | _ => none
  | .receive i incoming =>
    s.connections[i]?.bind fun c =>
      if c.phase = .waiting then some (s.setConnection i (c.receive s.now incoming)) else none
  | .update i =>
    s.connections[i]?.bind fun c =>
      if c.phase = .waiting ∧ c.updateInterval.Due s.now then some (s.setConnection i c.update) else none
  | .heartbeat i =>
    s.connections[i]?.bind fun c =>
      if c.phase = .waiting ∧ c.heartbeatInterval.Due s.now then
        some (s.setConnection i (c.heartbeat s.config s.now))
      else none
  | .sent i ok =>
    s.connections[i]?.bind fun c =>
      match c.phase with
      | .greeting =>
        some (s.setConnection i (if ok then c.beginLoop s.config s.now else c.leave s.now .failed))
      | .sending message => some (s.setConnection i (c.sent s.now ok message))
      | _ => none

def machine : Machine System Event := ⟨step⟩

end WebSocket

end Lazydns
