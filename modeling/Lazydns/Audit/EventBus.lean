import Lazydns.Audit.Event
import Lazydns.Lib.Broadcast
import Lazydns.Lib.Machine
import Lazydns.Lib.Slots

/-!
# The event bus

Query log entries and security events go out on two broadcast channels, whose subscribers come and go; the statistics are shared by both. A call of the logger sends its entry, and counts it if anyone was there to receive it. Each access to a channel or a counter is a step of its own, and the steps of all calls and subscribers come in any order.

The bus is set up once and never dropped, so no channel is ever closed. The channels are the library's; one may keep more than its capacity asks for. Counters are not bounded here. The logger's set of enabled event types is empty and stays so. What a receiver has received and missed is noted beside the source, as is the highest number of active subscribers there was.
-/

namespace Lazydns

namespace AuditEventBus

structure EventBusStats where
  eventsPublished : Nat
  eventsDropped : Nat
  activeSubscribers : Nat
  peakSubscribers : Nat
  deriving DecidableEq, Repr

def EventBusStats.new : EventBusStats := ⟨0, 0, 0, 0⟩

variable {α : Type}

/-! ### Publishing -/

/-- What a call of `log_query` or `log_security` does next. -/
inductive Publishing (α : Type) where
  | sending (entry : α)
  | counting
  | logging
  deriving DecidableEq, Repr

/-! ### Subscribers -/

/-- Where a subscriber is: in `subscribe`, between two calls of `recv`, in the loop of one, or in `drop`. -/
inductive Stage where
  | subscribed
  | counted (current : Nat)
  | peaking (current : Nat)
  | live
  | lagging (count : Nat)
  | dropping
  | gone
  deriving DecidableEq, Repr

structure Subscriber (α : Type) where
  receiver : Broadcast.Receiver α
  stage : Stage
  deriving DecidableEq, Repr

/-- A channel with its subscribers, the calls that publish on it, and the logger's counter of what was published. -/
structure Channel (α : Type) where
  library : Broadcast α
  sent : List α
  subscribers : List (Subscriber α)
  calls : List (Publishing α)
  logged : Nat

namespace Channel

def new (library : Broadcast α) : Channel α := ⟨library, [], [], [], 0⟩

def receiverCount (c : Channel α) : Nat := c.subscribers.countP fun subscriber => subscriber.stage ≠ .gone

/-- The next access of a publishing call, and what is left of the call behind it. -/
def publish (stats : EventBusStats) (c : Channel α) :
    Publishing α → EventBusStats × Channel α × Option (Publishing α)
  | .sending entry =>
    if c.receiverCount = 0 then (stats, c, none) else (stats, { c with sent := c.sent ++ [entry] }, some .counting)
  | .counting => ({ stats with eventsPublished := stats.eventsPublished + 1 }, c, some .logging)
  | .logging => (stats, { c with logged := c.logged + 1 }, none)

/-- A call of `recv` or of `try_recv`, as far as to the next value. -/
def recv (library : Broadcast α) (sent : List α) (subscriber : Subscriber α) : Subscriber α :=
  match subscriber.receiver.recv library sent with
  | (receiver, .lagged count) => ⟨receiver, .lagging count⟩
  | (receiver, _) => ⟨receiver, .live⟩

/-- What a subscriber does next on its own: the rest of `subscribe`, of the round of `recv` that has found it behind, or of `drop`. -/
def advance (stats : EventBusStats) : Stage → Option (EventBusStats × Stage)
  | .subscribed =>
    some ({ stats with activeSubscribers := stats.activeSubscribers + 1 }, .counted (stats.activeSubscribers + 1))
  | .counted current => some (stats, if stats.peakSubscribers < current then .peaking current else .live)
  | .peaking current => some ({ stats with peakSubscribers := current }, .live)
  | .lagging count => some ({ stats with eventsDropped := stats.eventsDropped + count }, .live)
  | .dropping => some (stats, .gone)
  | .live | .gone => none

inductive Event (α : Type) where
  | publish (entry : α)
  | call (i : Nat)
  | subscribe
  | advance (j : Nat)
  | recv (j : Nat)
  | drop (j : Nat)
  deriving DecidableEq, Repr

/-- A subscriber is dropped between two calls; with its own `drop` it is no longer active, and its receiver goes after it. -/
def step (stats : EventBusStats) (c : Channel α) : Event α → Option (EventBusStats × Channel α)
  | .publish entry => some (stats, { c with calls := c.calls ++ [.sending entry] })
  | .call i =>
    match c.calls[i]? with
    | some call =>
      let (stats, c', next) := c.publish stats call
      some (stats, { c' with calls := Slots.replace c.calls i next })
    | none => none
  | .subscribe =>
    some (stats, { c with subscribers := c.subscribers ++ [⟨Broadcast.subscribe c.sent, .subscribed⟩] })
  | .advance j =>
    match c.subscribers[j]? with
    | some subscriber =>
      (advance stats subscriber.stage).map fun (stats, stage) =>
        (stats, { c with subscribers := c.subscribers.set j { subscriber with stage } })
    | none => none
  | .recv j =>
    match c.subscribers[j]? with
    | some subscriber =>
      if subscriber.stage = .live then
        some (stats, { c with subscribers := c.subscribers.set j (recv c.library c.sent subscriber) })
      else none
    | none => none
  | .drop j =>
    match c.subscribers[j]? with
    | some subscriber =>
      if subscriber.stage = .live then
        some ({ stats with activeSubscribers := stats.activeSubscribers - 1 },
          { c with subscribers := c.subscribers.set j { subscriber with stage := .dropping } })
      else none
    | none => none

end Channel

/-! ### The bus -/

structure System where
  stats : EventBusStats
  query : Channel QueryLogEntry
  security : Channel AuditEvent
  highest : Nat

def System.new (query : Broadcast QueryLogEntry) (security : Broadcast AuditEvent) : System where
  stats := .new
  query := .new query
  security := .new security
  highest := 0

inductive Event where
  | query (event : Channel.Event QueryLogEntry)
  | security (event : Channel.Event AuditEvent)
  deriving DecidableEq, Repr

def step (s : System) : Event → Option System
  | .query event =>
    (s.query.step s.stats event).map fun (stats, query) =>
      { s with stats, query, highest := max s.highest stats.activeSubscribers }
  | .security event =>
    (s.security.step s.stats event).map fun (stats, security) =>
      { s with stats, security, highest := max s.highest stats.activeSubscribers }

def machine : Machine System Event := ⟨step⟩

end AuditEventBus

end Lazydns
