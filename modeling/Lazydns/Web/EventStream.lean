import Lazydns.Audit.EventBus
import Lazydns.Lib.Ticker

/-!
# The event streams of the web interface

A client of one of the two streams is sent a greeting, then an event for each entry that a subscriber of the bus receives for it, and comments in between that keep the connection alive. The stream does something only when it is polled, and can be dropped wherever it waits; a guard takes it out of the counter of connections however it ends. Everyone else on the bus goes on as they like, but no one touches a subscriber that is not theirs.

Times are in nanoseconds. The text of an entry is left to the JSON library, which may refuse it. The bus is never dropped, so no subscriber comes to the end of its channel.
-/

namespace Lazydns

namespace EventStream

open AuditEventBus

inductive Frame where
  | event (name data : String)
  | comment (text : String)
  deriving DecidableEq, Repr

/-- `query_logs_stream` or `security_events_stream`. -/
inductive Kind where
  | queryLogs
  | securityEvents
  deriving DecidableEq, Repr

namespace Kind

def eventName : Kind → String
  | queryLogs => "query"
  | securityEvents => "security"

def streamName : Kind → String
  | queryLogs => "query-logs"
  | securityEvents => "security-events"

def connected (kind : Kind) : Frame :=
  .event "connected" ("\x7b\"status\":\"connected\",\"stream\":\"" ++ kind.streamName ++ "\"\x7d")

end Kind

def unavailable : Frame := .event "error" "Event bus not available"

def keepalive : Frame := .comment "keepalive"

/-- `serde_json::to_string`, for both kinds of entries. -/
structure Json where
  query : QueryLogEntry → Option String
  security : AuditEvent → Option String

/-! ### The streams on the bus -/

/-- What a stream does to the channel of its kind, on which it may hold the subscriber at a place. -/
inductive Access where
  | subscribe
  | advance (j : Nat)
  | recv (j : Nat)
  | drop (j : Nat)
  deriving DecidableEq, Repr

def Access.event {α : Type} : Access → Channel.Event α
  | subscribe => .subscribe
  | advance j => .advance j
  | recv j => .recv j
  | drop j => .drop j

/-- The value that a call of `recv` finds. -/
def reception {α : Type} (c : Channel α) (j : Nat) : Option α :=
  c.subscribers[j]?.bind fun subscriber =>
    match (subscriber.receiver.recv c.library c.sent).2 with
    | .value value => some value
    | .lagged _ | .empty => none

namespace Kind

def event (access : Access) : Kind → AuditEventBus.Event
  | queryLogs => .query access.event
  | securityEvents => .security access.event

def subscriberCount (bus : AuditEventBus.System) : Kind → Nat
  | queryLogs => bus.query.subscribers.length
  | securityEvents => bus.security.subscribers.length

def stage (bus : AuditEventBus.System) (j : Nat) : Kind → Option Stage
  | queryLogs => bus.query.subscribers[j]?.map (·.stage)
  | securityEvents => bus.security.subscribers[j]?.map (·.stage)

/-- The entry that a call of `recv` finds, if it can be written. -/
def received (json : Json) (bus : AuditEventBus.System) (j : Nat) : Kind → Option String
  | queryLogs => (reception bus.query j).bind json.query
  | securityEvents => (reception bus.security j).bind json.security

end Kind

/-! ### Streams -/

/-- Where a stream is: not polled yet, counted, in `subscribe`, at the greeting, in the loop, behind the error; or on its way out, in the `drop` of its subscriber or of its guard. -/
inductive Phase where
  | opened
  | counted
  | subscribing
  | greeting
  | streaming
  | failed
  | dropping
  | leaving
  | closed
  deriving DecidableEq, Repr

structure Stream where
  kind : Kind
  phase : Phase
  subscriber : Option Nat
  keepaliveInterval : Ticker
  begun : Nat
  frames : List Frame
  deriving DecidableEq, Repr

def Stream.new (kind : Kind) : Stream := ⟨kind, .opened, none, ⟨0, 0⟩, 0, []⟩

def Stream.yield (stream : Stream) (frame : Frame) : Stream := { stream with frames := stream.frames ++ [frame] }

/-- The subscriber that an event of the bus is about. -/
def subscriberOf {α : Type} : Channel.Event α → Option Nat
  | .advance j | .recv j | .drop j => some j
  | .publish _ | .call _ | .subscribe => none

/-- The event does not touch the subscriber of the stream. -/
def Stream.Spared (stream : Stream) : AuditEventBus.Event → Prop
  | .query event => stream.kind = .queryLogs → ∀ j ∈ stream.subscriber, subscriberOf event ≠ some j
  | .security event => stream.kind = .securityEvents → ∀ j ∈ stream.subscriber, subscriberOf event ≠ some j

instance (stream : Stream) : (e : AuditEventBus.Event) → Decidable (stream.Spared e)
  | .query event =>
    inferInstanceAs (Decidable (stream.kind = .queryLogs → ∀ j ∈ stream.subscriber, subscriberOf event ≠ some j))
  | .security event =>
    inferInstanceAs (Decidable (stream.kind = .securityEvents → ∀ j ∈ stream.subscriber, subscriberOf event ≠ some j))

structure System where
  keepaliveSecs : Nat
  now : Nat
  bus : Option AuditEventBus.System
  sseConnections : Nat
  streams : List Stream

/-- The bus is there or not, as the configuration has it. -/
def System.new (keepaliveSecs : Nat) (channels : Option (Broadcast QueryLogEntry × Broadcast AuditEvent)) : System where
  keepaliveSecs
  now := 0
  bus := channels.map fun (query, security) => .new query security
  sseConnections := 0
  streams := []

namespace System

variable (s : System) (stream : Stream)

def keepalivePeriod : Nat := s.keepaliveSecs * 1000000000

/-- The stream does something to its subscriber. -/
def access (access : Nat → Access) : Option (System × Stream) :=
  s.bus.bind fun bus => stream.subscriber.bind fun j =>
    (AuditEventBus.step bus (stream.kind.event (access j))).map fun bus => ({ s with bus := some bus }, stream)

/-- The stream is dropped with what it holds. -/
def drop : Option (System × Stream) :=
  match stream.phase with
  | .opened => some (s, { stream with phase := .closed })
  | .greeting | .streaming => s.access { stream with phase := .dropping } .drop
  | .failed => some (s, { stream with phase := .leaving })
  | .counted | .subscribing | .dropping | .leaving | .closed => none

/-- Whether the subscriber of the stream has come to a stage. -/
def atStage (stage : Stage) : Bool :=
  s.bus.any fun bus => stream.subscriber.any fun j => stream.kind.stage bus j = some stage

/-- What the stream does next on its own. An interval without a period makes it panic. -/
def poll : Option (System × Stream) :=
  match stream.phase with
  | .opened => some ({ s with sseConnections := s.sseConnections + 1 }, { stream with phase := .counted })
  | .counted =>
    match s.bus with
    | none => some (s, { stream.yield unavailable with phase := .failed })
    | some bus =>
      (AuditEventBus.step bus (stream.kind.event .subscribe)).map fun bus' =>
        ({ s with bus := some bus' },
          { stream with phase := .subscribing, subscriber := some (stream.kind.subscriberCount bus) })
  | .subscribing =>
    if s.atStage stream .live then some (s, { stream.yield stream.kind.connected with phase := .greeting })
    else s.access stream .advance
  | .greeting =>
    if s.keepaliveSecs = 0 then s.drop stream
    else
      some (s,
        { stream with phase := .streaming, keepaliveInterval := .start s.now s.keepalivePeriod, begun := s.now })
  | .streaming => s.access stream .advance
  | .failed => some (s, { stream with phase := .leaving })
  | .dropping =>
    if s.atStage stream .gone then some (s, { stream with phase := .leaving }) else s.access stream .advance
  | .leaving => some ({ s with sseConnections := s.sseConnections - 1 }, { stream with phase := .closed })
  | .closed => none

/-- A round of `recv` in the loop; what it finds is passed on if it can be written. -/
def recv (json : Json) : Option (System × Stream) :=
  if stream.phase = .streaming then
    s.bus.bind fun bus => stream.subscriber.bind fun j =>
      match stream.kind.received json bus j with
      | some data => s.access (stream.yield (.event stream.kind.eventName data)) .recv
      | none => s.access stream .recv
  else none

def tick : Option (System × Stream) :=
  if stream.phase = .streaming ∧ stream.keepaliveInterval.Due s.now then
    some (s, { stream.yield keepalive with keepaliveInterval := stream.keepaliveInterval.tick })
  else none

end System

inductive Event where
  | elapse (duration : Nat)
  | bus (event : AuditEventBus.Event)
  | request (kind : Kind)
  | poll (i : Nat)
  | recv (i : Nat)
  | tick (i : Nat)
  | drop (i : Nat)
  deriving DecidableEq, Repr

/-- What one of the streams does, with the stream put back in its place. -/
def System.act (s : System) (i : Nat) (act : Stream → Option (System × Stream)) : Option System :=
  s.streams[i]?.bind fun stream =>
    (act stream).map fun (s', stream') => { s' with streams := s.streams.set i stream' }

def step (json : Json) (s : System) : Event → Option System
  | .elapse duration => some { s with now := s.now + duration }
  | .bus event =>
    if ∀ stream ∈ s.streams, stream.Spared event then
      s.bus.bind fun bus => (AuditEventBus.step bus event).map fun bus => { s with bus := some bus }
    else none
  | .request kind => some { s with streams := s.streams ++ [.new kind] }
  | .poll i => s.act i s.poll
  | .recv i => s.act i fun stream => s.recv stream json
  | .tick i => s.act i s.tick
  | .drop i => s.act i s.drop

def machine (json : Json) : Machine System Event := ⟨step json⟩

end EventStream

end Lazydns
