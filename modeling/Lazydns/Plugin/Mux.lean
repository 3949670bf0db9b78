import Lazydns.Lib.Machine
import Lazydns.Plugin.Env
import Mathlib.Logic.Function.Basic

/-!
# The UDP multiplexer

All queries over UDP share one socket. A call of `forward_query_udp` takes a 16-bit id from a counter, registers it with the upstream's address and the sender of a one-shot channel, sends the query under that id, and waits for the channel or the timeout; a guard removes the entry when the call is over. The read loop looks up each response by its id and passes it to the channel if it comes from the registered upstream. Every access to the counter and to the map of pending queries is a step of its own, and the steps of all calls, of the read loop, of the upstreams and of the network come in any order.
-/

namespace Lazydns

open Dns

namespace UdpMux

/-! ### The shared state -/

/-- What the receiver of a one-shot channel finds. -/
inductive Channel where
  | empty
  | full (response : Message)
  | closed
  deriving DecidableEq, Repr

/-- `tx` is the call whose channel the entry's sender belongs to. -/
structure PendingQuery where
  peer : String
  tx : Nat
  deriving DecidableEq, Repr

structure UdpMuxState where
  pending : UInt16 → Option PendingQuery
  nextQid : UInt16
  channels : Nat → Channel

namespace UdpMuxState

def new : UdpMuxState := ⟨fun _ => none, 1, fun _ => .empty⟩

/-- Dropping the entry under an id drops its sender: a receiver that is still waiting finds the channel closed. -/
def dropSender (qid : UInt16) (m : UdpMuxState) : UdpMuxState :=
  match m.pending qid with
  | some p =>
    if m.channels p.tx = .empty then { m with channels := Function.update m.channels p.tx .closed }
    else m
  | none => m

/-- `pending.insert`: an entry that was there is dropped. -/
def insert (qid : UInt16) (p : PendingQuery) (m : UdpMuxState) : UdpMuxState :=
  { m.dropSender qid with pending := Function.update m.pending qid (some p) }

/-- `PendingGuard::drop`. -/
def release (qid : UInt16) (m : UdpMuxState) : UdpMuxState :=
  { m.dropSender qid with pending := Function.update m.pending qid none }

/-- `pending.remove` and `tx.send`, as the read loop does them. -/
def deliver (response : Message) (m : UdpMuxState) : UdpMuxState :=
  match m.pending response.id with
  | some p =>
    { m with
      pending := Function.update m.pending response.id none
      channels := Function.update m.channels p.tx (.full response) }
  | none => m

end UdpMuxState

/-! ### The calls -/

/-- What a call comes to, if it is not aborted. -/
abbrev Result := Option (Except Error Message)

/-- Where a call of `forward_query_udp` is. From `registered` on its guard is alive; it is dropped in the step to `ended`. -/
inductive Stage where
  | allocating
  | checking (qid : UInt16)
  | assigned (qid : UInt16)
  | registered (qid : UInt16)
  | waiting (qid : UInt16)
  | leaving (qid : UInt16) (result : Result)
  | ended (result : Result)

/-- `upstream` is an address that parses. -/
structure Call where
  request : Message
  upstream : String
  stage : Stage

inductive Action where
  | allocate
  | check
  | insert
  | send
  | sendFails (e : Error)
  | take
  | timeout
  | abort
  | drop

namespace Call

/-- One step of the call with number `c`. A response that comes after the receiver was polled does not stop the timeout; tasks are aborted only where they wait. -/
def act (env : Env) (c : Nat) (call : Call) (m : UdpMuxState) : Action → Option (Stage × UdpMuxState)
  | .allocate =>
    match call.stage with
    | .allocating => some (.checking m.nextQid, { m with nextQid := m.nextQid + 1 })
    | _ => none
  | .check =>
    match call.stage with
    | .checking qid =>
      if qid ≠ 0 ∧ m.pending qid = none then some (.assigned qid, m) else some (.allocating, m)
    | _ => none
  | .insert =>
    match call.stage with
    | .assigned qid =>
      match env.serialize call.request with
      | none => some (.ended (some (.error (.dnsProtocol "Failed to serialize DNS message"))), m)
      | some _ => some (.registered qid, m.insert qid ⟨call.upstream, c⟩)
    | _ => none
  | .send =>
    match call.stage with
    | .registered qid => some (.waiting qid, m)
    | _ => none
  | .sendFails e =>
    match call.stage with
    | .registered qid => some (.leaving qid (some (.error e)), m)
    | _ => none
  | .take =>
    match call.stage with
    | .waiting qid =>
      match m.channels c with
      | .empty => none
      | .full response => some (.leaving qid (some (.ok { response with id := call.request.id })), m)
      | .closed => some (.leaving qid (some (.error (.connection call.upstream))), m)
    | _ => none
  | .timeout =>
    match call.stage with
    | .waiting qid => some (.leaving qid (some (.error (.upstreamTimeout call.upstream))), m)
    | _ => none
  | .abort =>
    match call.stage with
    | .registered qid => some (.leaving qid none, m)
    | .waiting qid => some (.leaving qid none, m)
    | _ => none
  | .drop =>
    match call.stage with
    | .leaving qid result => some (.ended result, m.release qid)
    | _ => none

end Call

/-! ### The network -/

structure Query where
  call : Nat
  peer : String
  wire : Hickory.Message

/-- A response on its way to the socket, and the call whose query it answers, if an upstream sent it. -/
structure Datagram where
  source : String
  response : Message
  answers : Option Nat

/-- Where the read loop is: between the lookup and the removal it holds no lock. -/
inductive Reader where
  | receiving
  | looking (d : Datagram)
  | removing (d : Datagram)

/-- `sent` and `answered` record the queries upstreams have received and the responses they have given, each with the call it answers. -/
structure System where
  mux : UdpMuxState
  calls : Nat → Option Call
  sent : List Query
  answered : List (Nat × Message)
  network : List Datagram
  reader : Reader

def System.new : System := ⟨.new, fun _ => none, [], [], [], .receiving⟩

/-- An upstream may answer any query it has received, at any time and more than once; anyone may send a datagram, and any may get lost. -/
inductive Event where
  | call (c : Nat) (request : Message) (upstream : String)
  | act (c : Nat) (a : Action)
  | answer (k : Nat) (response : Message)
  | arrive (source : String) (response : Message)
  | lose (k : Nat)
  | receive (k : Nat)
  | look
  | remove

/-- The query that goes out with a call's step. -/
def Call.emits (env : Env) (c : Nat) (call : Call) : Action → List Query
  | .send =>
    match call.stage with
    | .registered qid =>
      (env.serialize call.request).toList.map fun h => ⟨c, call.upstream, { h with id := qid }⟩
    | _ => []
  | _ => []

/-- The lookup of the read loop: only the upstream that was asked may answer. -/
def UdpMuxState.look (m : UdpMuxState) (d : Datagram) : Reader :=
  match m.pending d.response.id with
  | some p => if d.source = p.peer then .removing d else .receiving
  | none => .receiving

/-- One step of the whole system; `produces` says which responses an upstream may give to a query. -/
def step (env : Env) (produces : String → Hickory.Message → Message → Bool) (s : System) :
    Event → Option System
  | .call c request upstream =>
    match s.calls c with
    | none => some { s with calls := Function.update s.calls c (some ⟨request, upstream, .allocating⟩) }
    | some _ => none
  | .act c a =>
    match s.calls c with
    | none => none
    | some call => (call.act env c s.mux a).map fun r =>
      { s with
        mux := r.2
        calls := Function.update s.calls c (some { call with stage := r.1 })
        sent := s.sent ++ call.emits env c a }
  | .answer k response =>
    match s.sent[k]? with
    | none => none
    | some q =>
      if produces q.peer q.wire response then
        some { s with
          answered := s.answered ++ [(q.call, response)]
          network := s.network ++ [⟨q.peer, response, some q.call⟩] }
      else none
  | .arrive source response => some { s with network := s.network ++ [⟨source, response, none⟩] }
  | .lose k => some { s with network := s.network.eraseIdx k }
  | .receive k =>
    match s.reader, s.network[k]? with
    | .receiving, some d => some { s with network := s.network.eraseIdx k, reader := .looking d }
    | _, _ => none
  | .look =>
    match s.reader with
    | .looking d => some { s with reader := s.mux.look d }
    | _ => none
  | .remove =>
    match s.reader with
    | .removing d => some { s with mux := s.mux.deliver d.response, reader := .receiving }
    | _ => none

def machine (env : Env) (produces : String → Hickory.Message → Message → Bool) :
    Machine System Event :=
  ⟨step env produces⟩

end UdpMux

end Lazydns
