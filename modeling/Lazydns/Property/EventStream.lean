import Lazydns.Property.EventDelivery
import Lazydns.Web.EventStream

/-!
# What the clients of the event streams are sent

Behind the greeting a client is sent what its subscriber receives, in the order in which it was published and nothing twice, and all of it if the subscriber has missed nothing. A stream that is idle sends one comment in each period and none besides. The counter of connections is the number of streams that are going on, whichever way the others have ended.
-/

namespace Lazydns

namespace EventStream

open AuditEventBus

/-! ### What a subscriber has received -/

section

variable {α : Type} {stats stats' : EventBusStats} {c c' : Channel α} {e : Channel.Event α} {j : Nat}

/-- What the subscriber at a place has received. -/
def receivedBy (c : Channel α) (j : Nat) : List α :=
  (c.subscribers[j]?.map fun subscriber => subscriber.receiver.received).getD []

/-- What was published since the subscriber came. -/
def publishedTo (c : Channel α) (j : Nat) : List α :=
  (c.subscribers[j]?.map fun subscriber => subscriber.receiver.published c.sent).getD []

/-- The subscriber has missed nothing and has nothing before it. -/
def CaughtUp (c : Channel α) (j : Nat) : Prop :=
  ∀ subscriber, c.subscribers[j]? = some subscriber →
    subscriber.receiver.missed = 0 ∧ subscriber.receiver.pending c.sent = []

theorem receivedBy_sublist {library : Broadcast α} (h : c.Followed library) (j : Nat) :
    (receivedBy c j).Sublist (publishedTo c j) := by
  rw [receivedBy, publishedTo]
  cases hj : c.subscribers[j]? with
  | none => exact List.Sublist.refl []
  | some subscriber =>
    have hfollows := h.2 subscriber (List.mem_of_getElem? hj)
    exact (List.sublist_append_left _ _).trans hfollows.order

theorem receivedBy_eq {library : Broadcast α} (h : c.Followed library) (hcaught : CaughtUp c j) :
    receivedBy c j = publishedTo c j := by
  rw [receivedBy, publishedTo]
  cases hj : c.subscribers[j]? with
  | none => rfl
  | some subscriber =>
    obtain ⟨hmissed, hpending⟩ := hcaught subscriber hj
    have hall := (h.2 subscriber (List.mem_of_getElem? hj)).complete_iff.mpr hmissed
    rw [hpending, List.append_nil] at hall
    exact hall

theorem length_subscribers_le (h : c.step stats e = some (stats', c')) :
    c.subscribers.length ≤ c'.subscribers.length := by
  obtain ⟨-, heffect⟩ := Channel.step_effect h
  cases heffect with
  | sends entries hsent hentries hsubscribers => rw [hsubscribers]
  | comes hsent hsubscribers =>
    rw [hsubscribers, List.length_append]
    omega
  | moves hsent j subscriber subscriber' hj hsubscribers hreceiver => rw [hsubscribers, List.length_set]
  | receives hsent j subscriber subscriber' hj hsubscribers hreceiver => rw [hsubscribers, List.length_set]

theorem receivedBy_set {i : Nat} {subscriber subscriber' : Subscriber α} (hi : c.subscribers[i]? = some subscriber)
    (hsubscribers : c'.subscribers = c.subscribers.set i subscriber')
    (hreceived : j = i → subscriber'.receiver.received = subscriber.receiver.received) :
    receivedBy c' j = receivedBy c j := by
  rw [receivedBy, receivedBy, hsubscribers]
  by_cases hij : j = i
  · subst hij
    rw [hi, List.getElem?_set_self (List.getElem?_eq_some_iff.mp hi).1]
    exact hreceived rfl
  · rw [List.getElem?_set_ne (Ne.symm hij)]

theorem receivedBy_of_ne (h : c.step stats e = some (stats', c')) (hj : j < c.subscribers.length)
    (hne : e ≠ .recv j) : receivedBy c' j = receivedBy c j := by
  cases e with
  | publish entry =>
    cases h
    rfl
  | call i =>
    simp only [Channel.step] at h
    split at h
    · rename_i call hcall
      cases h
      show ((c.publish stats call).2.1.subscribers[j]?.map _).getD [] = _
      rw [(Channel.publish_channel stats c call).2.1]
      rfl
    · cases h
  | subscribe =>
    cases h
    show ((c.subscribers ++ [_])[j]?.map _).getD [] = _
    rw [List.getElem?_append_left hj]
    rfl
  | advance i =>
    simp only [Channel.step] at h
    split at h
    · rename_i subscriber hi
      obtain ⟨⟨_, stage⟩, -, heq⟩ := Option.map_eq_some_iff.mp h
      cases heq
      exact receivedBy_set hi rfl fun _ => rfl
    · cases h
  | recv i =>
    simp only [Channel.step] at h
    split at h
    · rename_i subscriber hi
      obtain ⟨-, heq⟩ := Option.ite_none_right_eq_some.mp h
      cases heq
      exact receivedBy_set hi rfl fun hij => absurd (hij ▸ rfl) hne
    · cases h
  | drop i =>
    simp only [Channel.step] at h
    split at h
    · rename_i subscriber hi
      obtain ⟨-, heq⟩ := Option.ite_none_right_eq_some.mp h
      cases heq
      exact receivedBy_set hi rfl fun _ => rfl
    · cases h

theorem receivedBy_recv (h : c.step stats (.recv j) = some (stats', c')) :
    receivedBy c' j = receivedBy c j ++ (reception c j).toList := by
  simp only [Channel.step] at h
  split at h
  · rename_i subscriber hj
    obtain ⟨-, heq⟩ := Option.ite_none_right_eq_some.mp h
    cases heq
    have hset : (c.subscribers.set j (Channel.recv c.library c.sent subscriber))[j]? =
        some (Channel.recv c.library c.sent subscriber) :=
      List.getElem?_set_self (List.getElem?_eq_some_iff.mp hj).1
    simp only [receivedBy, reception, hset, hj, Option.map_some, Option.getD_some, Option.bind_some,
      Channel.recv_receiver]
    have hreceives := Broadcast.Receiver.receives c.library c.sent subscriber.receiver
    generalize subscriber.receiver.recv c.library c.sent = found at hreceives ⊢
    cases hreceives with
    | behind hbehind => exact (List.append_nil _).symm
    | value hbehind hvalue => rfl
    | empty hvalue => exact (List.append_nil _).symm
  · cases h

theorem receivedBy_subscribe (h : c.step stats .subscribe = some (stats', c')) :
    c.subscribers.length < c'.subscribers.length ∧ receivedBy c' c.subscribers.length = [] := by
  cases h
  constructor
  · show _ < (c.subscribers ++ [_]).length
    rw [List.length_append]
    exact Nat.lt_succ_self _
  · show ((c.subscribers ++ [_])[c.subscribers.length]?.map _).getD [] = []
    rw [List.getElem?_concat_length]
    rfl

end

variable {json : Json} {bus bus' : AuditEventBus.System} {e : AuditEventBus.Event} {kind : Kind} {j : Nat}

namespace Kind

/-- What a stream of the kind makes of what its subscriber has received. -/
def told (json : Json) (bus : AuditEventBus.System) (j : Nat) : Kind → List String
  | queryLogs => (receivedBy bus.query j).filterMap json.query
  | securityEvents => (receivedBy bus.security j).filterMap json.security

/-- What it would make of all that was published since the subscriber came. -/
def published (json : Json) (bus : AuditEventBus.System) (j : Nat) : Kind → List String
  | queryLogs => (publishedTo bus.query j).filterMap json.query
  | securityEvents => (publishedTo bus.security j).filterMap json.security

def CaughtUp (bus : AuditEventBus.System) (j : Nat) : Kind → Prop
  | queryLogs => EventStream.CaughtUp bus.query j
  | securityEvents => EventStream.CaughtUp bus.security j

variable {query : Broadcast QueryLogEntry} {security : Broadcast AuditEvent}

theorem told_sublist (h : Followed query security bus) (json : Json) (j : Nat) (kind : Kind) :
    (kind.told json bus j).Sublist (kind.published json bus j) := by
  cases kind with
  | queryLogs => exact (receivedBy_sublist h.1 j).filterMap json.query
  | securityEvents => exact (receivedBy_sublist h.2 j).filterMap json.security

theorem told_eq (h : Followed query security bus) (json : Json) (hcaught : kind.CaughtUp bus j) :
    kind.told json bus j = kind.published json bus j := by
  cases kind with
  | queryLogs => exact congrArg (List.filterMap json.query) (receivedBy_eq h.1 hcaught)
  | securityEvents => exact congrArg (List.filterMap json.security) (receivedBy_eq h.2 hcaught)

theorem subscriberCount_le (h : AuditEventBus.step bus e = some bus') :
    kind.subscriberCount bus ≤ kind.subscriberCount bus' := by
  obtain ⟨event, -, hstep, hother, -⟩ | ⟨event, -, hstep, hother, -⟩ := step_cases h
  · cases kind with
    | queryLogs => exact length_subscribers_le hstep
    | securityEvents =>
      show bus.security.subscribers.length ≤ bus'.security.subscribers.length
      rw [hother]
  · cases kind with
    | queryLogs =>
      show bus.query.subscribers.length ≤ bus'.query.subscribers.length
      rw [hother]
    | securityEvents => exact length_subscribers_le hstep

theorem told_of_ne (h : AuditEventBus.step bus e = some bus') (hj : j < kind.subscriberCount bus)
    (hne : e ≠ kind.event (.recv j)) : kind.told json bus' j = kind.told json bus j := by
  obtain ⟨event, rfl, hstep, hother, -⟩ | ⟨event, rfl, hstep, hother, -⟩ := step_cases h
  · cases kind with
    | queryLogs =>
      have hevent : event ≠ .recv j := fun heq => hne (congrArg AuditEventBus.Event.query heq)
      exact congrArg (List.filterMap json.query) (receivedBy_of_ne hstep hj hevent)
    | securityEvents =>
      show (receivedBy bus'.security j).filterMap json.security = (receivedBy bus.security j).filterMap json.security
      rw [hother]
  · cases kind with
    | queryLogs =>
      show (receivedBy bus'.query j).filterMap json.query = (receivedBy bus.query j).filterMap json.query
      rw [hother]
    | securityEvents =>
      have hevent : event ≠ .recv j := fun heq => hne (congrArg AuditEventBus.Event.security heq)
      exact congrArg (List.filterMap json.security) (receivedBy_of_ne hstep hj hevent)

theorem filterMap_toList {α β : Type} (f : α → Option β) (o : Option α) : o.toList.filterMap f = (o.bind f).toList := by
  cases o with
  | none => rfl
  | some a =>
    rw [Option.toList_some, Option.bind_some, List.filterMap_cons]
    cases f a <;> rfl

theorem told_recv (h : AuditEventBus.step bus (kind.event (.recv j)) = some bus') :
    kind.told json bus' j = kind.told json bus j ++ (kind.received json bus j).toList := by
  cases kind with
  | queryLogs =>
    obtain ⟨⟨_, query⟩, hstep, heq⟩ := Option.map_eq_some_iff.mp h
    cases heq
    show (receivedBy query j).filterMap json.query = _
    rw [receivedBy_recv hstep, List.filterMap_append, filterMap_toList]
    rfl
  | securityEvents =>
    obtain ⟨⟨_, security⟩, hstep, heq⟩ := Option.map_eq_some_iff.mp h
    cases heq
    show (receivedBy security j).filterMap json.security = _
    rw [receivedBy_recv hstep, List.filterMap_append, filterMap_toList]
    rfl

theorem told_subscribe (json : Json) (h : AuditEventBus.step bus (kind.event .subscribe) = some bus') :
    kind.subscriberCount bus < kind.subscriberCount bus' ∧ kind.told json bus' (kind.subscriberCount bus) = [] := by
  obtain ⟨event, heq, hstep, -, -⟩ | ⟨event, heq, hstep, -, -⟩ := step_cases h
  · cases kind with
    | queryLogs =>
      cases heq
      obtain ⟨hlt, hnone⟩ := receivedBy_subscribe hstep
      exact ⟨hlt, congrArg (List.filterMap json.query) hnone⟩
    | securityEvents => cases heq
  · cases kind with
    | queryLogs => cases heq
    | securityEvents =>
      cases heq
      obtain ⟨hlt, hnone⟩ := receivedBy_subscribe hstep
      exact ⟨hlt, congrArg (List.filterMap json.security) hnone⟩

end Kind

/-! ### What a stream does -/

variable {s s' t : System} {stream stream' : Stream}

/-- The stream holds a subscriber that works for it. -/
def Phase.held : Phase → Bool
  | .subscribing | .greeting | .streaming | .dropping => true
  | .opened | .counted | .failed | .leaving | .closed => false

def Phase.inCounter : Phase → Bool
  | .opened | .closed => false
  | .counted | .subscribing | .greeting | .streaming | .failed | .dropping | .leaving => true

/-- One thing that a stream does, with what becomes of the system and of the stream. -/
inductive Does (json : Json) (s : System) (stream : Stream) : System → Stream → Prop
  | enter (hphase : stream.phase = .opened) :
      Does json s stream { s with sseConnections := s.sseConnections + 1 } { stream with phase := .counted }
  | abandon (hphase : stream.phase = .opened) : Does json s stream s { stream with phase := .closed }
  | refuse (hphase : stream.phase = .counted) (hbus : s.bus = none) :
      Does json s stream s { stream.yield unavailable with phase := .failed }
  | subscribe (bus bus' : AuditEventBus.System) (hphase : stream.phase = .counted) (hbus : s.bus = some bus)
      (hstep : AuditEventBus.step bus (stream.kind.event .subscribe) = some bus') :
      Does json s stream { s with bus := some bus' }
        { stream with phase := .subscribing, subscriber := some (stream.kind.subscriberCount bus) }
  | greet (hphase : stream.phase = .subscribing) :
      Does json s stream s { stream.yield stream.kind.connected with phase := .greeting }
  | own (bus bus' : AuditEventBus.System) (j : Nat) (access : Access) (phase : Phase)
      (hbus : s.bus = some bus) (hj : stream.subscriber = some j) (hown : access = .advance j ∨ access = .drop j)
      (hstep : AuditEventBus.step bus (stream.kind.event access) = some bus') (hheld : stream.phase.held)
      (hphase : phase = stream.phase ∨ phase = .dropping ∧ stream.phase ≠ .subscribing) :
      Does json s stream { s with bus := some bus' } { stream with phase }
  | loop (hphase : stream.phase = .greeting) (hsecs : s.keepaliveSecs ≠ 0) :
      Does json s stream s
        { stream with phase := .streaming, keepaliveInterval := .start s.now s.keepalivePeriod, begun := s.now }
  | recv (bus bus' : AuditEventBus.System) (j : Nat) (hphase : stream.phase = .streaming) (hbus : s.bus = some bus)
      (hj : stream.subscriber = some j)
      (hstep : AuditEventBus.step bus (stream.kind.event (.recv j)) = some bus') :
      Does json s stream { s with bus := some bus' }
        { stream with frames := stream.frames ++
            (stream.kind.received json bus j).toList.map (.event stream.kind.eventName) }
  | tick (hphase : stream.phase = .streaming) (hdue : stream.keepaliveInterval.Due s.now) :
      Does json s stream s { stream.yield keepalive with keepaliveInterval := stream.keepaliveInterval.tick }
  | leave (hphase : stream.phase = .failed ∨ stream.phase = .dropping) :
      Does json s stream s { stream with phase := .leaving }
  | exit (hphase : stream.phase = .leaving) :
      Does json s stream { s with sseConnections := s.sseConnections - 1 } { stream with phase := .closed }

theorem access_eq_some {access : Nat → Access} (h : s.access stream access = some (s', stream')) :
    ∃ bus bus' j, s.bus = some bus ∧ stream.subscriber = some j ∧
      AuditEventBus.step bus (stream.kind.event (access j)) = some bus' ∧ s' = { s with bus := some bus' } ∧
      stream' = stream := by
  obtain ⟨bus, hbus, h⟩ := Option.bind_eq_some_iff.mp h
  obtain ⟨j, hj, h⟩ := Option.bind_eq_some_iff.mp h
  obtain ⟨bus', hstep, heq⟩ := Option.map_eq_some_iff.mp h
  cases heq
  exact ⟨bus, bus', j, hbus, hj, hstep, rfl, rfl⟩

/-- The stream goes on with its subscriber. -/
theorem does_of_advance (hheld : stream.phase.held) (h : s.access stream .advance = some (s', stream')) :
    Does json s stream s' stream' := by
  obtain ⟨bus, bus', j, hbus, hj, hstep, rfl, rfl⟩ := access_eq_some h
  exact .own bus bus' j (.advance j) stream'.phase hbus hj (.inl rfl) hstep hheld (.inl rfl)

theorem does_of_drop (h : s.drop stream = some (s', stream')) : Does json s stream s' stream' := by
  have hdropped : ∀ {phase : Phase}, stream.phase = phase → phase.held → phase ≠ .subscribing →
      s.access { stream with phase := .dropping } .drop = some (s', stream') → Does json s stream s' stream' := by
    intro phase hphase hheld hne h
    obtain ⟨bus, bus', j, hbus, hj, hstep, rfl, rfl⟩ := access_eq_some h
    subst hphase
    exact .own bus bus' j (.drop j) .dropping hbus hj (.inr rfl) hstep hheld (.inr ⟨rfl, hne⟩)
  unfold System.drop at h
  split at h
  · rename_i hphase
    cases h
    exact .abandon hphase
  · rename_i hphase
    exact hdropped hphase rfl (fun hp => by cases hp) h
  · rename_i hphase
    exact hdropped hphase rfl (fun hp => by cases hp) h
  · rename_i hphase
    cases h
    exact .leave (.inl hphase)
  all_goals cases h

theorem does_of_poll (h : s.poll stream = some (s', stream')) : Does json s stream s' stream' := by
  unfold System.poll at h
  split at h
  · rename_i hphase
    cases h
    exact .enter hphase
  · rename_i hphase
    split at h
    · rename_i hbus
      cases h
      exact .refuse hphase hbus
    · rename_i bus hbus
      obtain ⟨bus', hstep, heq⟩ := Option.map_eq_some_iff.mp h
      cases heq
      exact .subscribe bus bus' hphase hbus hstep
  · rename_i hphase
    split at h
    · cases h
      exact .greet hphase
    · exact does_of_advance (hphase ▸ rfl) h
  · rename_i hphase
    split at h
    · exact does_of_drop h
    · rename_i hsecs
      cases h
      exact .loop hphase hsecs
  · rename_i hphase
    exact does_of_advance (hphase ▸ rfl) h
  · rename_i hphase
    cases h
    exact .leave (.inl hphase)
  · rename_i hphase
    split at h
    · cases h
      exact .leave (.inr hphase)
    · exact does_of_advance (hphase ▸ rfl) h
  · rename_i hphase
    cases h
    exact .exit hphase
  · cases h

theorem does_of_recv (h : s.recv stream json = some (s', stream')) : Does json s stream s' stream' := by
  obtain ⟨hphase, h⟩ := Option.ite_none_right_eq_some.mp h
  obtain ⟨bus, hbus, h⟩ := Option.bind_eq_some_iff.mp h
  obtain ⟨j, hj, h⟩ := Option.bind_eq_some_iff.mp h
  have hdoes : ∀ {bus' : AuditEventBus.System}, AuditEventBus.step bus (stream.kind.event (.recv j)) = some bus' →
      Does json s stream _ _ := fun hstep => .recv bus _ j hphase hbus hj hstep
  split at h
  · rename_i data hdata
    obtain ⟨_, bus', j', hbus', hj', hstep, rfl, rfl⟩ := access_eq_some h
    cases hbus.symm.trans hbus'
    cases hj.symm.trans hj'
    have hrecv := hdoes hstep
    rw [hdata] at hrecv
    exact hrecv
  · rename_i hdata
    obtain ⟨_, bus', j', hbus', hj', hstep, rfl, rfl⟩ := access_eq_some h
    cases hbus.symm.trans hbus'
    cases hj.symm.trans hj'
    have hrecv := hdoes hstep
    rw [hdata, Option.toList_none, List.map_nil, List.append_nil] at hrecv
    exact hrecv

theorem does_of_tick (h : s.tick stream = some (s', stream')) : Does json s stream s' stream' := by
  obtain ⟨⟨hphase, hdue⟩, heq⟩ := Option.ite_none_right_eq_some.mp h
  cases heq
  exact .tick hphase hdue

theorem Does.same (h : Does json s stream s' stream') :
    s'.now = s.now ∧ s'.keepaliveSecs = s.keepaliveSecs ∧ s'.streams = s.streams ∧ stream'.kind = stream.kind := by
  cases h <;> exact ⟨rfl, rfl, rfl, rfl⟩

theorem Kind.event_recv_inj {kind' : Kind} {j' : Nat} (h : kind.event (.recv j) = kind'.event (.recv j')) :
    kind = kind' ∧ j = j' := by
  cases kind <;> cases kind' <;> cases h <;> exact ⟨rfl, rfl⟩

theorem Kind.event_recv_ne {access : Access} (h : ∀ j', access ≠ .recv j') :
    kind.event access ≠ kind.event (.recv j) := by
  intro heq
  cases access with
  | recv j' => exact h j' rfl
  | _ => cases kind <;> cases heq

/-- What a stream does is nothing to the bus, or one event there, in which it receives for no one but itself. -/
theorem Does.on_bus (h : Does json s stream s' stream') : s'.bus = s.bus ∨
    ∃ bus bus' access, s.bus = some bus ∧ s'.bus = some bus' ∧
      AuditEventBus.step bus (stream.kind.event access) = some bus' ∧
      ∀ j, access = .recv j → stream.subscriber = some j := by
  cases h with
  | subscribe bus bus' hphase hbus hstep =>
    exact .inr ⟨bus, bus', .subscribe, hbus, rfl, hstep, fun j heq => by cases heq⟩
  | own bus bus' j access phase hbus hj hown hstep hheld hphase =>
    refine .inr ⟨bus, bus', access, hbus, rfl, hstep, fun j' heq => ?_⟩
    rcases hown with rfl | rfl <;> cases heq
  | recv bus bus' j hphase hbus hj hstep =>
    refine .inr ⟨bus, bus', .recv j, hbus, rfl, hstep, fun j' heq => ?_⟩
    cases heq
    exact hj
  | _ => exact .inl rfl

/-! ### What a stream has been sent -/

def Frame.isEvent : Frame → Bool
  | .event _ _ => true
  | .comment _ => false

namespace Stream

def events (stream : Stream) : List Frame := stream.frames.filter Frame.isEvent

def keepalives (stream : Stream) : Nat := stream.frames.countP fun frame => !frame.isEvent

def entry (stream : Stream) (data : String) : Frame := .event stream.kind.eventName data

theorem events_yield (stream : Stream) (name data : String) :
    (stream.yield (.event name data)).events = stream.events ++ [.event name data] :=
  List.filter_append _ _

theorem events_keepalive (stream : Stream) : (stream.yield keepalive).events = stream.events := by
  show (stream.frames ++ [keepalive]).filter _ = stream.frames.filter _
  rw [List.filter_append]
  exact List.append_nil _

theorem keepalives_yield (stream : Stream) (name data : String) :
    (stream.yield (.event name data)).keepalives = stream.keepalives := List.countP_append

theorem keepalives_keepalive (stream : Stream) : (stream.yield keepalive).keepalives = stream.keepalives + 1 :=
  List.countP_append

/-- What a stream has been sent: nothing yet, the error, or the greeting and what it has been told. -/
inductive Told (json : Json) (bus : Option AuditEventBus.System) (stream : Stream) : Prop
  | nothing (hsubscriber : stream.subscriber = none) (hphase : stream.phase ∈ [Phase.opened, .counted, .closed])
      (hevents : stream.events = [])
  | error (hsubscriber : stream.subscriber = none) (hphase : stream.phase ∈ [Phase.failed, .leaving, .closed])
      (hbus : bus = none) (hevents : stream.events = [unavailable])
  | subscribing (b : AuditEventBus.System) (j : Nat) (hbus : bus = some b) (hj : stream.subscriber = some j)
      (hlt : j < stream.kind.subscriberCount b) (hphase : stream.phase = .subscribing) (hevents : stream.events = [])
      (htold : stream.kind.told json b j = [])
  | entries (b : AuditEventBus.System) (j : Nat) (hbus : bus = some b) (hj : stream.subscriber = some j)
      (hlt : j < stream.kind.subscriberCount b)
      (hphase : stream.phase ∈ [Phase.greeting, .streaming, .dropping, .leaving, .closed])
      (hevents : stream.events = stream.kind.connected :: (stream.kind.told json b j).map stream.entry)

end Stream

/-- What happens on the bus is nothing to a stream, but in its own calls of `recv`. -/
theorem Stream.Told.on_bus (h : stream.Told json (some bus)) (hstep : AuditEventBus.step bus e = some bus')
    (hne : ∀ j, stream.subscriber = some j → e ≠ stream.kind.event (.recv j)) : stream.Told json (some bus') := by
  cases h with
  | nothing hsubscriber hphase hevents => exact .nothing hsubscriber hphase hevents
  | error hsubscriber hphase hbus hevents => cases hbus
  | subscribing b j hbus hj hlt hphase hevents htold =>
    cases hbus
    apply Stream.Told.subscribing bus' j rfl hj (Nat.lt_of_lt_of_le hlt (Kind.subscriberCount_le hstep)) hphase hevents
    rw [Kind.told_of_ne hstep hlt (hne j hj), htold]
  | entries b j hbus hj hlt hphase hevents =>
    cases hbus
    apply Stream.Told.entries bus' j rfl hj (Nat.lt_of_lt_of_le hlt (Kind.subscriberCount_le hstep)) hphase
    rw [Kind.told_of_ne hstep hlt (hne j hj), hevents]

/-- The two do not hold the same subscriber. -/
def Stream.Apart (stream stream' : Stream) : Prop :=
  stream.kind = stream'.kind → ∀ j, stream.subscriber = some j → stream'.subscriber ≠ some j

theorem Stream.Told.other {other : Stream} (h : other.Told json s.bus) (hapart : other.Apart stream)
    (hdoes : Does json s stream s' stream') : other.Told json s'.bus := by
  obtain hsame | ⟨bus, bus', access, hbus, hbus', hstep, hrecv⟩ := hdoes.on_bus
  · rw [hsame]
    exact h
  · rw [hbus] at h
    rw [hbus']
    apply h.on_bus hstep
    intro j hj heq
    by_cases hkind : other.kind = stream.kind
    · rw [hkind] at heq
      cases access with
      | recv j' =>
        obtain ⟨-, rfl⟩ := Kind.event_recv_inj heq
        exact hapart hkind j' hj (hrecv j' rfl)
      | _ => exact Kind.event_recv_ne (fun _ h => by cases h) heq
    · cases hk : other.kind <;> cases hk' : stream.kind <;> rw [hk, hk'] at heq <;> first
        | exact hkind (hk.trans hk'.symm)
        | cases heq

namespace Stream.Told

variable {b : Option AuditEventBus.System}

/-- Nothing has been sent before the stream has a subscriber. -/
theorem unsubscribed (h : stream.Told json b) (hphase : stream.phase ∈ [Phase.opened, .counted]) :
    stream.subscriber = none ∧ stream.events = [] := by
  cases h with
  | nothing hsubscriber hphase' hevents => exact ⟨hsubscriber, hevents⟩
  | error hsubscriber hphase' | entries b j hbus hj hlt hphase' hevents =>
    simp only [List.mem_cons, List.not_mem_nil, or_false] at hphase hphase'
    rcases hphase with hp | hp <;> rw [hp] at hphase' <;> simp at hphase'
  | subscribing b j hbus hj hlt hphase' hevents htold =>
    rw [hphase'] at hphase
    simp at hphase

theorem subscribed (h : stream.Told json b) (hphase : stream.phase = .subscribing) :
    ∃ bus j, b = some bus ∧ stream.subscriber = some j ∧ j < stream.kind.subscriberCount bus ∧
      stream.events = [] ∧ stream.kind.told json bus j = [] := by
  cases h with
  | subscribing bus j hbus hj hlt hphase' hevents htold => exact ⟨bus, j, hbus, hj, hlt, hevents, htold⟩
  | nothing hsubscriber hphase' | error hsubscriber hphase' | entries bus j hbus hj hlt hphase' =>
    rw [hphase] at hphase'
    simp at hphase'

theorem greeted (h : stream.Told json b) (hphase : stream.phase = .greeting ∨ stream.phase = .streaming) :
    ∃ bus j, b = some bus ∧ stream.subscriber = some j ∧ j < stream.kind.subscriberCount bus ∧
      stream.events = stream.kind.connected :: (stream.kind.told json bus j).map stream.entry := by
  cases h with
  | entries bus j hbus hj hlt hphase' hevents => exact ⟨bus, j, hbus, hj, hlt, hevents⟩
  | nothing hsubscriber hphase' | error hsubscriber hphase' | subscribing bus j hbus hj hlt hphase' =>
    rcases hphase with hp | hp <;> rw [hp] at hphase' <;> simp at hphase'

/-- A stream is over with an error, or with what it has been told; it says no more. -/
theorem ends (h : stream.Told json b) {phase : Phase} (hphase : stream.phase ∈ [Phase.failed, .dropping, .leaving])
    (hnext : phase ∈ [Phase.leaving, .closed]) : ({ stream with phase } : Stream).Told json b := by
  cases h with
  | error hsubscriber hphase' hbus hevents =>
    exact .error hsubscriber (List.mem_cons_of_mem _ hnext) hbus hevents
  | entries bus j hbus hj hlt hphase' hevents =>
    exact .entries bus j hbus hj hlt (List.mem_cons_of_mem _ (List.mem_cons_of_mem _ (List.mem_cons_of_mem _ hnext)))
      hevents
  | nothing hsubscriber hphase' | subscribing bus j hbus hj hlt hphase' =>
    simp only [List.mem_cons, List.not_mem_nil, or_false] at hphase
    rcases hphase with hp | hp | hp <;> rw [hp] at hphase' <;> simp at hphase'

/-- A stream's own steps on the bus, but for the receiving, tell it nothing. -/
theorem own {bus bus' : AuditEventBus.System} {j : Nat} {access : Access} {phase : Phase}
    (h : stream.Told json (some bus)) (hj : stream.subscriber = some j)
    (hown : access = .advance j ∨ access = .drop j)
    (hstep : AuditEventBus.step bus (stream.kind.event access) = some bus')
    (hphase : phase = stream.phase ∨ phase = .dropping ∧ stream.phase ≠ .subscribing) :
    ({ stream with phase } : Stream).Told json (some bus') := by
  have hne : ∀ j', stream.kind.event access ≠ stream.kind.event (.recv j') := by
    intro j'
    apply Kind.event_recv_ne
    rintro j'' rfl
    rcases hown with hown | hown <;> cases hown
  cases h.on_bus hstep fun j' _ => hne j' with
  | nothing hsubscriber | error hsubscriber =>
    rw [hj] at hsubscriber
    cases hsubscriber
  | subscribing b j' hb hj' hlt hphase' hevents htold =>
    obtain rfl := hphase.resolve_right fun hp => hp.2 hphase'
    exact .subscribing b j' hb hj' hlt hphase' hevents htold
  | entries b j' hb hj' hlt hphase' hevents =>
    refine .entries b j' hb hj' hlt ?_ hevents
    rcases hphase with rfl | ⟨rfl, -⟩
    · exact hphase'
    · simp

/-- What a subscriber receives is all that the stream sends then. -/
theorem recv {bus bus' : AuditEventBus.System} {j : Nat} (h : stream.Told json (some bus))
    (hphase : stream.phase = .streaming) (hj : stream.subscriber = some j)
    (hstep : AuditEventBus.step bus (stream.kind.event (.recv j)) = some bus') :
    ({ stream with
      frames := stream.frames ++ (stream.kind.received json bus j).toList.map stream.entry } : Stream).Told
      json (some bus') := by
  obtain ⟨b, j', hb, hj', hlt, hevents⟩ := h.greeted (.inr hphase)
  cases hb
  cases hj.symm.trans hj'
  refine .entries bus' j rfl hj (Nat.lt_of_lt_of_le hlt (Kind.subscriberCount_le hstep)) (by simp [hphase]) ?_
  have hentries : ∀ texts : List String, (texts.map stream.entry).filter Frame.isEvent = texts.map stream.entry := by
    intro texts
    apply List.filter_eq_self.mpr
    rintro _ hmem
    obtain ⟨data, -, rfl⟩ := List.mem_map.mp hmem
    rfl
  show (stream.frames ++ (stream.kind.received json bus j).toList.map stream.entry).filter Frame.isEvent =
    stream.kind.connected :: (stream.kind.told json bus' j).map stream.entry
  rw [List.filter_append, hentries, Kind.told_recv hstep, List.map_append, ← List.cons_append, ← hevents]
  rfl

theorem does (h : stream.Told json s.bus) (hdoes : Does json s stream s' stream') : stream'.Told json s'.bus := by
  cases hdoes with
  | enter hphase | abandon hphase =>
    obtain ⟨hsubscriber, hevents⟩ := h.unsubscribed (by simp [hphase])
    exact .nothing hsubscriber (by simp) hevents
  | refuse hphase hbus =>
    obtain ⟨hsubscriber, hevents⟩ := h.unsubscribed (by simp [hphase])
    refine .error hsubscriber (by simp) hbus ?_
    show (stream.yield unavailable).events = _
    rw [unavailable, events_yield, hevents]
    rfl
  | subscribe bus bus' hphase hbus hstep =>
    obtain ⟨-, hevents⟩ := h.unsubscribed (by simp [hphase])
    obtain ⟨hlt, hnone⟩ := Kind.told_subscribe json hstep
    exact .subscribing bus' _ rfl rfl hlt rfl hevents hnone
  | greet hphase =>
    obtain ⟨b, j, hbus, hj, hlt, hevents, htold⟩ := h.subscribed hphase
    refine .entries b j hbus hj hlt (by simp) ?_
    show (stream.yield stream.kind.connected).events = stream.kind.connected :: (stream.kind.told json b j).map _
    rw [Kind.connected, events_yield, hevents, htold]
    rfl
  | own bus bus' j access phase hbus hj hown hstep hheld hphase =>
    rw [hbus] at h
    exact h.own hj hown hstep hphase
  | loop hphase hsecs =>
    obtain ⟨b, j, hbus, hj, hlt, hevents⟩ := h.greeted (.inl hphase)
    exact .entries b j hbus hj hlt (by simp) hevents
  | recv bus bus' j hphase hbus hj hstep =>
    rw [hbus] at h
    exact h.recv hphase hj hstep
  | tick hphase hdue =>
    obtain ⟨b, j, hbus, hj, hlt, hevents⟩ := h.greeted (.inr hphase)
    exact .entries b j hbus hj hlt (by simp [Stream.yield, hphase]) (stream.events_keepalive.trans hevents)
  | leave hphase => exact h.ends (by rcases hphase with hp | hp <;> simp [hp]) (by simp)
  | exit hphase => exact h.ends (by simp [hphase]) (by simp)

end Stream.Told

/-! ### Comments -/

/-- What is known of the comments: none before the loop, and then one for each tick of the interval. Without a period the loop is never come to. -/
structure Stream.Paced (s : System) (stream : Stream) : Prop where
  begun : stream.begun ≤ s.now
  silent : stream.phase ∈ [Phase.opened, .counted, .subscribing] → stream.frames = []
  greeting : stream.phase = .greeting → stream.keepalives = 0
  ticked : stream.phase = .streaming →
    Ticker.Ticked stream.begun s.keepalivePeriod stream.keepalives s.now stream.keepaliveInterval
  bound : s.keepaliveSecs ≠ 0 → stream.keepalives ≤ (s.now - stream.begun) / s.keepalivePeriod + 1
  idle : s.keepaliveSecs = 0 → stream.phase ≠ .streaming ∧ stream.frames.length ≤ 1

theorem keepalivePeriod_pos (h : s.keepaliveSecs ≠ 0) : 0 < s.keepalivePeriod :=
  Nat.mul_pos (Nat.pos_of_ne_zero h) (by simp)

namespace Stream.Paced

theorem later (h : stream.Paced s) (hsecs : s'.keepaliveSecs = s.keepaliveSecs) (hle : s.now ≤ s'.now) :
    stream.Paced s' := by
  have hperiod : s'.keepalivePeriod = s.keepalivePeriod := by
    rw [System.keepalivePeriod, hsecs, System.keepalivePeriod]
  refine ⟨Nat.le_trans h.begun hle, h.silent, h.greeting, fun hphase => ?_, fun hne => ?_, fun hzero => ?_⟩
  · rw [hperiod]
    exact (h.ticked hphase).later hle
  · rw [hperiod]
    apply Nat.le_trans (h.bound (hsecs ▸ hne))
    have hdiv : (s.now - stream.begun) / s.keepalivePeriod ≤ (s'.now - stream.begun) / s.keepalivePeriod :=
      Nat.div_le_div_right (by omega)
    omega
  · exact h.idle (hsecs ▸ hzero)

theorem move (h : stream.Paced s) {phase : Phase} {subscriber : Option Nat}
    (hsilent : phase ∈ [Phase.opened, .counted, .subscribing] → stream.frames = [])
    (hgreeting : phase = .greeting → stream.keepalives = 0) (hstreaming : phase = .streaming → stream.phase = .streaming) :
    Paced s { stream with phase, subscriber } where
  begun := h.begun
  silent := hsilent
  greeting := hgreeting
  ticked hphase := h.ticked (hstreaming hphase)
  bound := h.bound
  idle hzero := ⟨fun hphase => (h.idle hzero).1 (hstreaming hphase), (h.idle hzero).2⟩

theorem yield_first (h : stream.Paced s) (hframes : stream.frames = []) (name data : String) {phase : Phase}
    (hphase : phase ∉ [Phase.opened, .counted, .subscribing, .streaming]) :
    Paced s { stream.yield (.event name data) with phase } where
  begun := h.begun
  silent hp := absurd (List.mem_append_left [Phase.streaming] hp) hphase
  greeting _ := by
    show (stream.yield (.event name data)).keepalives = 0
    rw [keepalives_yield, keepalives, hframes]
    rfl
  ticked hp := by
    simp [show phase = .streaming from hp] at hphase
  bound hne := by
    show (stream.yield (.event name data)).keepalives ≤ _
    rw [keepalives_yield]
    exact h.bound hne
  idle _ := by
    refine ⟨fun hp => ?_, ?_⟩
    · simp [show phase = .streaming from hp] at hphase
    · show (stream.frames ++ [_]).length ≤ 1
      rw [hframes]
      exact Nat.le_refl 1

theorem pass (h : stream.Paced s) (hphase : stream.phase = .streaming) (texts : List String) :
    Paced s { stream with frames := stream.frames ++ texts.map stream.entry } := by
  have hkeepalives : ({ stream with frames := stream.frames ++ texts.map stream.entry } : Stream).keepalives =
      stream.keepalives := by
    show (stream.frames ++ texts.map stream.entry).countP _ = stream.frames.countP _
    have hnone : (texts.map stream.entry).countP (fun frame => !frame.isEvent) = 0 := by
      rw [List.countP_map, List.countP_eq_zero]
      intro text _
      exact Bool.false_ne_true
    rw [List.countP_append, hnone, Nat.add_zero]
  refine ⟨h.begun, fun hp => ?_, fun hp => ?_, fun _ => ?_, fun hne => ?_, fun hzero => ?_⟩
  · simp [hphase] at hp
  · rw [show stream.phase = .greeting from hp] at hphase
    cases hphase
  · rw [hkeepalives]
    exact h.ticked hphase
  · rw [hkeepalives]
    exact h.bound hne
  · exact absurd hphase (h.idle hzero).1

theorem tick (h : stream.Paced s) (hphase : stream.phase = .streaming) (hdue : stream.keepaliveInterval.Due s.now) :
    Paced s { stream.yield keepalive with keepaliveInterval := stream.keepaliveInterval.tick } := by
  have hticked : Ticker.Ticked stream.begun s.keepalivePeriod (stream.yield keepalive).keepalives s.now
      stream.keepaliveInterval.tick := by
    rw [keepalives_keepalive]
    exact (h.ticked hphase).tick hdue
  refine ⟨h.begun, fun hp => ?_, fun hp => ?_, fun _ => hticked, fun hne => ?_, fun hzero => ?_⟩
  · simp [yield, hphase] at hp
  · rw [show stream.phase = .greeting from hp] at hphase
    cases hphase
  · exact hticked.le (keepalivePeriod_pos hne) h.begun
  · exact absurd hphase (h.idle hzero).1

theorem loop (h : stream.Paced s) (hphase : stream.phase = .greeting) (hsecs : s.keepaliveSecs ≠ 0) :
    Paced s { stream with
      phase := .streaming, keepaliveInterval := .start s.now s.keepalivePeriod, begun := s.now } := by
  have hnone := h.greeting hphase
  refine ⟨Nat.le_refl _, fun hp => ?_, fun hp => ?_, fun _ => ?_, fun _ => ?_, fun hzero => absurd hzero hsecs⟩
  · simp at hp
  · cases hp
  · show Ticker.Ticked s.now _ stream.keepalives _ _
    rw [hnone]
    exact Ticker.ticked_start s.now s.keepalivePeriod
  · show stream.keepalives ≤ _
    rw [hnone]
    exact Nat.zero_le _

theorem does (h : stream.Paced s) (hdoes : Does json s stream s' stream') : stream'.Paced s' := by
  obtain ⟨hnow, hsame, -, -⟩ := hdoes.same
  suffices hpaced : stream'.Paced s from hpaced.later hsame (Nat.le_of_eq hnow.symm)
  have hsilent : ∀ {phase : Phase}, stream.phase = phase → phase ∈ [Phase.opened, .counted, .subscribing] →
      stream.frames = [] := fun hphase hmem => h.silent (hphase ▸ hmem)
  cases hdoes with
  | enter hphase =>
    exact h.move (fun _ => hsilent hphase (by simp)) (fun hp => by cases hp) fun hp => by cases hp
  | abandon hphase =>
    exact h.move (fun _ => hsilent hphase (by simp)) (fun hp => by cases hp) fun hp => by cases hp
  | refuse hphase hbus => exact h.yield_first (hsilent hphase (by simp)) _ _ (by simp)
  | subscribe bus bus' hphase hbus hstep =>
    exact h.move (fun _ => hsilent hphase (by simp)) (fun hp => by cases hp) fun hp => by cases hp
  | greet hphase => exact h.yield_first (hsilent hphase (by simp)) _ _ (by simp)
  | own bus bus' j access phase hbus hj hown hstep hheld hphase =>
    rcases hphase with rfl | ⟨rfl, -⟩
    · exact h.move h.silent h.greeting id
    · exact h.move (fun hp => by simp at hp) (fun hp => by cases hp) fun hp => by cases hp
  | loop hphase hsecs => exact h.loop hphase hsecs
  | recv bus bus' j hphase hbus hj hstep => exact h.pass hphase _
  | tick hphase hdue => exact h.tick hphase hdue
  | leave hphase =>
    exact h.move (fun hp => by simp at hp) (fun hp => by cases hp) fun hp => by cases hp
  | exit hphase =>
    exact h.move (fun hp => by simp at hp) (fun hp => by cases hp) fun hp => by cases hp

end Stream.Paced

/-! ### The system -/

inductive Moves (json : Json) (s t : System) : Prop
  | elapse (duration : Nat) (heq : t = { s with now := s.now + duration })
  | bus (event : AuditEventBus.Event) (bus bus' : AuditEventBus.System)
      (hspared : ∀ stream ∈ s.streams, stream.Spared event) (hbus : s.bus = some bus)
      (hstep : AuditEventBus.step bus event = some bus') (heq : t = { s with bus := some bus' })
  | request (kind : Kind) (heq : t = { s with streams := s.streams ++ [.new kind] })
  | act (i : Nat) (stream stream' : Stream) (s' : System) (hi : s.streams[i]? = some stream)
      (hdoes : Does json s stream s' stream') (heq : t = { s' with streams := s.streams.set i stream' })

theorem moves_of_act {i : Nat} {act : Stream → Option (System × Stream)} (h : s.act i act = some t)
    (hdoes : ∀ {stream stream' s'}, act stream = some (s', stream') → Does json s stream s' stream') :
    Moves json s t := by
  obtain ⟨stream, hi, h⟩ := Option.bind_eq_some_iff.mp h
  obtain ⟨⟨s', stream'⟩, hact, rfl⟩ := Option.map_eq_some_iff.mp h
  exact .act i stream stream' s' hi (hdoes hact) rfl

theorem moves_of_step {event : Event} (h : (machine json).step s event = some t) : Moves json s t := by
  cases event with
  | elapse duration => exact .elapse duration (Option.some.inj h).symm
  | bus event =>
    obtain ⟨hspared, h⟩ := Option.ite_none_right_eq_some.mp h
    obtain ⟨bus, hbus, h⟩ := Option.bind_eq_some_iff.mp h
    obtain ⟨bus', hstep, rfl⟩ := Option.map_eq_some_iff.mp h
    exact .bus event bus bus' hspared hbus hstep rfl
  | request kind => exact .request kind (Option.some.inj h).symm
  | poll i => exact moves_of_act h does_of_poll
  | recv i => exact moves_of_act h does_of_recv
  | tick i => exact moves_of_act h does_of_tick
  | drop i => exact moves_of_act h does_of_drop

/-- The streams have been told what they should have been, none holds the subscriber of another, and the counter is the number of those that are in it. -/
structure Inv (json : Json) (s : System) : Prop where
  followed : ∀ bus, s.bus = some bus → ∃ query security, Followed query security bus
  told : ∀ stream ∈ s.streams, stream.Told json s.bus
  paced : ∀ stream ∈ s.streams, stream.Paced s
  apart : ∀ (i i' : Nat) (a a' : Stream), s.streams[i]? = some a → s.streams[i']? = some a' → i ≠ i' → a.Apart a'
  inCounter : s.sseConnections = s.streams.countP fun stream => stream.phase.inCounter

theorem Stream.Apart.symm {a a' : Stream} (h : a.Apart a') : a'.Apart a :=
  fun hkind j hj hj' => h hkind.symm j hj' hj

theorem Stream.Told.lt {bus : AuditEventBus.System} (h : stream.Told json (some bus)) (hj : stream.subscriber = some j) :
    j < stream.kind.subscriberCount bus := by
  cases h with
  | nothing hsubscriber | error hsubscriber =>
    rw [hj] at hsubscriber
    cases hsubscriber
  | subscribing b j' hbus hj' hlt | entries b j' hbus hj' hlt =>
    cases hbus
    cases hj.symm.trans hj'
    exact hlt

/-- A stream holds the same subscriber as before, or one that no other holds. -/
theorem Does.apart {other : Stream} (hdoes : Does json s stream s' stream') (hother : other.Told json s.bus)
    (hapart : other.Apart stream) : other.Apart stream' := by
  cases hdoes with
  | subscribe bus bus' hphase hbus hstep =>
    intro hkind j hj heq
    rw [hbus] at hother
    have hlt := hother.lt hj
    have hcount : stream.kind.subscriberCount bus = j := Option.some.inj heq
    rw [show other.kind = stream.kind from hkind, hcount] at hlt
    exact Nat.lt_irrefl j hlt
  | _ => exact hapart

theorem Does.counted (hdoes : Does json s stream s' stream') (hpos : stream.phase.inCounter → 0 < s.sseConnections) :
    s'.sseConnections + stream.phase.inCounter.toNat = s.sseConnections + stream'.phase.inCounter.toNat := by
  cases hdoes with
  | enter hphase =>
    rw [hphase]
    rfl
  | abandon hphase | refuse hphase | subscribe _ _ hphase | greet hphase | loop hphase =>
    rw [hphase]
    rfl
  | recv | tick => rfl
  | own bus bus' j access phase hbus hj hown hstep hheld hphase =>
    have hcounted : stream.phase.inCounter = true := by
      cases hp : stream.phase <;> rw [hp] at hheld <;> first
        | rfl
        | cases hheld
    rcases hphase with rfl | ⟨rfl, -⟩
    · rfl
    · rw [hcounted]
      rfl
  | leave hphase => rcases hphase with hp | hp <;> rw [hp] <;> rfl
  | exit hphase =>
    have hlt := hpos (hphase ▸ rfl)
    rw [hphase]
    show s.sseConnections - 1 + 1 = s.sseConnections + 0
    omega

theorem Stream.Spared.ne {event : AuditEventBus.Event} (h : stream.Spared event) (hj : stream.subscriber = some j) :
    event ≠ stream.kind.event (.recv j) := by
  intro heq
  cases hkind : stream.kind <;> rw [hkind] at heq <;> subst heq <;> exact h hkind j hj rfl

theorem inv_new (json : Json) (keepaliveSecs : Nat) (channels : Option (Broadcast QueryLogEntry × Broadcast AuditEvent)) :
    Inv json (.new keepaliveSecs channels) where
  followed bus hbus := by
    obtain ⟨⟨query, security⟩, -, rfl⟩ := Option.map_eq_some_iff.mp hbus
    exact ⟨query, security, ⟨rfl, List.forall_mem_nil _⟩, rfl, List.forall_mem_nil _⟩
  told := List.forall_mem_nil _
  paced := List.forall_mem_nil _
  apart i i' a a' hi := by cases hi
  inCounter := rfl

theorem Inv.published {event : AuditEventBus.Event} {bus bus' : AuditEventBus.System} (h : Inv json s)
    (hspared : ∀ stream ∈ s.streams, stream.Spared event) (hbus : s.bus = some bus)
    (hstep : AuditEventBus.step bus event = some bus') : Inv json { s with bus := some bus' } := by
  refine ⟨fun b hb => ?_, fun stream hmem => ?_, fun stream hmem => ?_, h.apart, h.inCounter⟩
  · cases hb
    obtain ⟨query, security, hfollowed⟩ := h.followed bus hbus
    exact ⟨query, security, hfollowed.step hstep⟩
  · have htold := h.told stream hmem
    rw [hbus] at htold
    exact htold.on_bus hstep fun j hj => (hspared stream hmem).ne hj
  · exact (h.paced stream hmem).later rfl (Nat.le_refl _)

/-- A new stream has been sent nothing, and holds nothing of another. -/
theorem Inv.request (h : Inv json s) (kind : Kind) : Inv json { s with streams := s.streams ++ [.new kind] } := by
  have hnew : ∀ a : Stream, a.Apart (.new kind) := fun a _ j _ hj => by cases hj
  refine ⟨h.followed, fun stream hmem => ?_, fun stream hmem => ?_, fun i i' a a' hi hi' hne => ?_, ?_⟩
  · rcases List.mem_append.mp hmem with hmem | hmem
    · exact h.told stream hmem
    · rw [List.mem_singleton.mp hmem]
      exact .nothing rfl (by simp [Stream.new]) rfl
  · rcases List.mem_append.mp hmem with hmem | hmem
    · exact (h.paced stream hmem).later rfl (Nat.le_refl _)
    · rw [List.mem_singleton.mp hmem]
      refine ⟨Nat.zero_le _, fun _ => rfl, fun _ => rfl, fun hp => ?_, fun _ => Nat.zero_le _, fun _ => ⟨fun hp => ?_, ?_⟩⟩
      · cases hp
      · cases hp
      · exact Nat.zero_le _
  · rcases Slots.getElem?_append_iff.mp hi with hi | ⟨rfl, rfl⟩
    · rcases Slots.getElem?_append_iff.mp hi' with hi' | ⟨-, rfl⟩
      · exact h.apart i i' a a' hi hi' hne
      · exact hnew a
    · rcases Slots.getElem?_append_iff.mp hi' with hi' | ⟨rfl, -⟩
      · exact (hnew a').symm
      · exact absurd rfl hne
  · show s.sseConnections = (s.streams ++ [Stream.new kind]).countP _
    rw [List.countP_append, h.inCounter]
    rfl

/-- One stream's step keeps what is known of each, of their subscribers and of the counter. -/
theorem Inv.act {i : Nat} (h : Inv json s) (hi : s.streams[i]? = some stream)
    (hdoes : Does json s stream s' stream') : Inv json { s' with streams := s.streams.set i stream' } := by
  obtain ⟨hnow, hsecs, -, -⟩ := hdoes.same
  -- Another stream than the one at the place.
  have hother : ∀ i' a, i' ≠ i → s.streams[i']? = some a → a.Apart stream' := by
    intro i' a hne hi'
    exact hdoes.apart (h.told a (List.mem_of_getElem? hi')) (h.apart i' i a stream hi' hi hne)
  refine ⟨fun b hb => ?_, fun a hmem => ?_, fun a hmem => ?_, fun k k' a a' hk hk' hne => ?_, ?_⟩
  · rcases hdoes.on_bus with hsame | ⟨bus, bus', access, hbus, hbus', hstep, -⟩
    · exact h.followed b (hsame ▸ hb)
    · cases hbus'.symm.trans hb
      obtain ⟨query, security, hfollowed⟩ := h.followed bus hbus
      exact ⟨query, security, hfollowed.step hstep⟩
  · obtain ⟨k, hk⟩ := List.mem_iff_getElem?.mp hmem
    show a.Told json s'.bus
    rcases (Slots.getElem?_set_iff hi).mp hk with ⟨-, rfl⟩ | ⟨hne, hk⟩
    · exact (h.told stream (List.mem_of_getElem? hi)).does hdoes
    · exact (h.told a (List.mem_of_getElem? hk)).other (h.apart k i a stream hk hi hne) hdoes
  · rcases List.mem_or_eq_of_mem_set hmem with hmem | rfl
    · exact (h.paced a hmem).later hsecs (Nat.le_of_eq hnow.symm)
    · exact ((h.paced stream (List.mem_of_getElem? hi)).does hdoes).later rfl (Nat.le_refl _)
  · rcases (Slots.getElem?_set_iff hi).mp hk with ⟨rfl, rfl⟩ | ⟨hne₁, hold⟩
    · rcases (Slots.getElem?_set_iff hi).mp hk' with ⟨rfl, -⟩ | ⟨hne₂, hold'⟩
      · exact absurd rfl hne
      · exact (hother k' a' hne₂ hold').symm
    · rcases (Slots.getElem?_set_iff hi).mp hk' with ⟨rfl, rfl⟩ | ⟨-, hold'⟩
      · exact hother k a hne₁ hold
      · exact h.apart k k' a a' hold hold' hne
  · have hplace := Slots.countP_replace hi (some stream') fun stream => stream.phase.inCounter
    rw [Option.any_some] at hplace
    have hcounter := h.inCounter
    have hcounted := hdoes.counted fun hin => by
      rw [hcounter]
      exact List.countP_pos_iff.mpr ⟨stream, List.mem_of_getElem? hi, hin⟩
    show s'.sseConnections = (Slots.replace s.streams i (some stream')).countP _
    omega

theorem Inv.moves (h : Inv json s) (hmoves : Moves json s t) : Inv json t := by
  cases hmoves with
  | elapse duration heq =>
    subst heq
    refine ⟨h.followed, h.told, fun stream hmem => ?_, h.apart, h.inCounter⟩
    exact (h.paced stream hmem).later rfl (Nat.le_add_right _ _)
  | bus event bus bus' hspared hbus hstep heq =>
    subst heq
    exact h.published hspared hbus hstep
  | request kind heq =>
    subst heq
    exact h.request kind
  | act i stream stream' s' hi hdoes heq =>
    subst heq
    exact h.act hi hdoes

theorem inv_of_run {keepaliveSecs : Nat} {channels : Option (Broadcast QueryLogEntry × Broadcast AuditEvent)}
    {events : List Event}
    (hrun : (machine json).run (.new keepaliveSecs channels) events = some s) : Inv json s := by
  apply Machine.run_invariant (I := Inv json) _ (inv_new json keepaliveSecs channels) hrun
  exact fun _ _ _ h hstep => h.moves (moves_of_step hstep)

/-- What a client has been sent besides comments: nothing, if it has not been greeted; the error, if there is no bus; or the greeting and a part of what was published since its subscriber came, all of it if the subscriber has missed nothing and has nothing before it. -/
inductive Stream.Shows (json : Json) (bus : Option AuditEventBus.System) (stream : Stream) : Prop
  | nothing (hphase : stream.phase ∈ [Phase.opened, .counted, .subscribing, .closed]) (hevents : stream.events = [])
  | error (hbus : bus = none) (hevents : stream.events = [unavailable])
  | entries (b : AuditEventBus.System) (j : Nat) (shown : List String) (hbus : bus = some b)
      (hj : stream.subscriber = some j) (hevents : stream.events = stream.kind.connected :: shown.map stream.entry)
      (horder : shown.Sublist (stream.kind.published json b j))
      (hall : stream.kind.CaughtUp b j → shown = stream.kind.published json b j)

/-- In every run, whatever else happens on the bus and whenever the streams are polled and dropped. -/
theorem shown_of_run {keepaliveSecs : Nat} {channels : Option (Broadcast QueryLogEntry × Broadcast AuditEvent)}
    {events : List Event}
    (hrun : (machine json).run (.new keepaliveSecs channels) events = some s) :
    ∀ stream ∈ s.streams, stream.Shows json s.bus := by
  have hinv := inv_of_run hrun
  intro stream hmem
  cases hinv.told stream hmem with
  | nothing hsubscriber hphase hevents =>
    refine .nothing ?_ hevents
    simp only [List.mem_cons, List.not_mem_nil, or_false] at hphase ⊢
    rcases hphase with hp | hp | hp <;> simp [hp]
  | error hsubscriber hphase hbus hevents => exact .error hbus hevents
  | subscribing b j hbus hj hlt hphase hevents => exact .nothing (by simp [hphase]) hevents
  | entries b j hbus hj hlt hphase hevents =>
    obtain ⟨query, security, hfollowed⟩ := hinv.followed b hbus
    exact .entries b j _ hbus hj hevents (Kind.told_sublist hfollowed json j stream.kind) (Kind.told_eq hfollowed json)

/-- An entry without any of the optional fields, as it is written. -/
def entryJson (entry : QueryLogEntry) : Option String :=
  some ("\x7b\"timestamp\":\"" ++ entry.timestamp ++ "\",\"query_id\":" ++ toString entry.queryId.toNat ++
    ",\"protocol\":\"" ++ entry.protocol ++ "\",\"qname\":\"" ++ entry.qname ++ "\",\"qtype\":\"" ++ entry.qtype ++
    "\",\"qclass\":\"" ++ entry.qclass ++ "\"\x7d")

/-- A client is greeted, an entry is published and passed on, and a comment follows. -/
def passedOn : List Event :=
  [.request .queryLogs, .poll 0, .poll 0, .poll 0, .poll 0, .poll 0, .poll 0, .poll 0,
    .bus (.query (.publish (.new "2024-05-01T12:00:00Z" 7 "udp" "a.test" "A" "IN"))), .bus (.query (.call 0)), .recv 0,
    .tick 0]

/-- The client has been sent the greeting and the entry. -/
theorem shown_of_run_passedOn :
    ∃ s stream, (machine ⟨entryJson, fun _ => none⟩).run (.new 30 (some (.keeping 1, .keeping 1))) passedOn = some s ∧
      s.streams = [stream] ∧ stream.events.length = 2 ∧ stream.Shows ⟨entryJson, fun _ => none⟩ s.bus := by
  obtain ⟨s, stream, hrun, hstreams, hevents⟩ : ∃ s stream,
      (machine ⟨entryJson, fun _ => none⟩).run (.new 30 (some (.keeping 1, .keeping 1))) passedOn = some s ∧
        s.streams = [stream] ∧ stream.events.length = 2 := ⟨_, _, rfl, rfl, rfl⟩
  refine ⟨s, stream, hrun, hstreams, hevents, shown_of_run hrun stream ?_⟩
  rw [hstreams]
  exact List.mem_singleton_self stream

/-- In every run the counter is the number of streams that are going on, and each stream has sent one comment for each period that has begun since its loop did, if none is due, and never more. A stream without a period ends with its greeting. -/
theorem keepalives_of_run {keepaliveSecs : Nat} {channels : Option (Broadcast QueryLogEntry × Broadcast AuditEvent)}
    {events : List Event}
    (hrun : (machine json).run (.new keepaliveSecs channels) events = some s) :
    (s.sseConnections = s.streams.countP fun stream => stream.phase.inCounter) ∧
    ∀ stream ∈ s.streams,
      (s.keepaliveSecs = 0 → stream.frames.length ≤ 1) ∧
      (s.keepaliveSecs ≠ 0 → stream.keepalives ≤ (s.now - stream.begun) / s.keepalivePeriod + 1) ∧
      (stream.phase = .streaming → ¬stream.keepaliveInterval.Due s.now →
        stream.keepalives = (s.now - stream.begun) / s.keepalivePeriod + 1) := by
  have hinv := inv_of_run hrun
  refine ⟨hinv.inCounter, fun stream hmem => ?_⟩
  have hpaced := hinv.paced stream hmem
  refine ⟨fun hzero => (hpaced.idle hzero).2, hpaced.bound, fun hphase hdue => ?_⟩
  have hsecs : s.keepaliveSecs ≠ 0 := fun hzero => (hpaced.idle hzero).1 hphase
  exact (hpaced.ticked hphase).eq (keepalivePeriod_pos hsecs) hpaced.begun hdue

/-- A period later a comment is due again, and the client goes. -/
def goneAfterPeriod : List Event := passedOn ++ [.elapse 30000000000, .tick 0, .elapse 1, .drop 0]

theorem keepalives_of_run_passedOn :
    ∃ s stream, (machine ⟨entryJson, fun _ => none⟩).run (.new 30 (some (.keeping 1, .keeping 1)))
        goneAfterPeriod = some s ∧
      s.streams = [stream] ∧ s.sseConnections = 1 ∧ stream.keepalives = 2 ∧
      s.sseConnections = s.streams.countP (fun stream => stream.phase.inCounter) ∧
      stream.keepalives ≤ (s.now - stream.begun) / s.keepalivePeriod + 1 := by
  obtain ⟨s, stream, hrun, hstreams, hsecs, hconnections, hkeepalives⟩ : ∃ s stream,
      (machine ⟨entryJson, fun _ => none⟩).run (.new 30 (some (.keeping 1, .keeping 1))) goneAfterPeriod = some s ∧
        s.streams = [stream] ∧ s.keepaliveSecs = 30 ∧ s.sseConnections = 1 ∧ stream.keepalives = 2 :=
    ⟨_, _, rfl, rfl, rfl, rfl, rfl⟩
  obtain ⟨hcounter, hpaced⟩ := keepalives_of_run hrun
  have hmem : stream ∈ s.streams := by
    rw [hstreams]
    exact List.mem_singleton_self stream
  refine ⟨s, stream, hrun, hstreams, hconnections, hkeepalives, hcounter, (hpaced stream hmem).2.1 ?_⟩
  rw [hsecs]
  decide

end EventStream

end Lazydns
