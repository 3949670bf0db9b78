import Lazydns.Server.Service
import Lazydns.Server.Stream

/-!
# What a client reads from a stream

A client takes frames from the stream until it ends. What it gets should be the responses to its queries, in their order, each as it was serialized, without those that are too long for a frame. TCP and DoT keep to this whatever the handler returns. DoQ cuts the length of a long response off and writes all of it.
-/

namespace Lazydns

open Dns Frames

/-- A server that answers on streams, with what it knows of the connection. -/
inductive StreamServer where
  | tcp (maxSize : Nat) (peer : SocketAddr)
  | dot (peer : Option SocketAddr)
  | doq
  deriving DecidableEq, Repr

/-- A response that a frame can hold. -/
def FitsFrame (data : List UInt8) : Prop := data.length ≤ 65535

instance (data : List UInt8) : Decidable (FitsFrame data) := inferInstanceAs (Decidable (_ ≤ _))

namespace StreamServer

variable {σ : Type} (codec : Codec) (handle : RequestContext → σ → Except Error Message × σ)

def serve : StreamServer → List UInt8 → σ → Served σ
  | tcp maxSize peer => TcpServer.serveConnection codec handle maxSize peer
  | dot peer => DotServer.serveConnection codec handle peer
  | doq => DoqServer.serveStream codec handle

def context : StreamServer → Message → RequestContext
  | tcp _ peer => TcpServer.requestContext peer
  | dot peer => DotServer.requestContext peer
  | doq => DoqServer.requestContext

/-- The longest query that is read. -/
def maxQuery : StreamServer → Nat
  | tcp maxSize _ => min maxSize 65535
  | dot _ | doq => 65535

/-- The queries of a stream that are answered: only DoT looks at more than the first. -/
def heard : StreamServer → List (List UInt8) → List (List UInt8)
  | dot _, queries => queries
  | tcp _ _, queries | doq, queries => queries.take 1

/-- The responses that the handler returns to queries in their order, up to the first one that fails or is too long. -/
def responses (context : Message → RequestContext) : List (List UInt8) → σ → List (List UInt8)
  | [], _ => []
  | query :: queries, s =>
    match exchange codec handle context query s with
    | (.error _, _) => []
    | (.ok data, s) => data :: if FitsFrame data then responses context queries s else []

/-- What a client that sends queries should read. -/
def Framed (server : StreamServer) (queries : List (List UInt8)) (s : σ) : Prop :=
  readAll (server.serve codec handle (queries.flatMap Frames.frame) s).written =
    some ((responses codec handle server.context (server.heard queries) s).filter fun data => FitsFrame data)

/-- Queries that the server reads. -/
def Accepts (server : StreamServer) (queries : List (List UInt8)) : Prop :=
  ∀ query ∈ queries, query ≠ [] ∧ query.length ≤ server.maxQuery

instance (server : StreamServer) (queries : List (List UInt8)) : Decidable (server.Accepts queries) :=
  inferInstanceAs (Decidable (∀ query ∈ queries, _ ∧ _))

variable {codec handle}

theorem tcp_serve (maxSize : Nat) (peer : SocketAddr) {query : List UInt8} (hquery : query.length ≤ min maxSize 65535)
    (rest : List UInt8) (s : σ) :
    TcpServer.serveConnection codec handle maxSize peer (Frames.frame query ++ rest) s =
      match exchange codec handle (TcpServer.requestContext peer) query s with
      | (.error e, s) => .stop (.error e) s
      | (.ok data, s) =>
        if data.length ≤ 65535 then ⟨.ok (), [data], Frames.frame data, s⟩
        else ⟨.error (responseTooLarge "TCP" data), [data], [], s⟩ := by
  have hmax : ¬maxSize < query.length := by omega
  rw [TcpServer.serveConnection, readLength_frame (by omega)]
  cases hexchange : exchange codec handle (TcpServer.requestContext peer) query s with
  | mk result s' => cases result <;> simp only [if_neg hmax, Bytes.block_append, hexchange]

theorem doq_serve {query : List UInt8} (hquery : query.length ≤ 65535) (rest : List UInt8) (s : σ) :
    DoqServer.serveStream codec handle (Frames.frame query ++ rest) s =
      match exchange codec handle DoqServer.requestContext query s with
      | (.error e, s) => .stop (.error e) s
      | (.ok data, s) => ⟨.ok (), [data], Frames.frame data, s⟩ := by
  rw [DoqServer.serveStream, readLength_frame hquery]
  cases hexchange : exchange codec handle DoqServer.requestContext query s with
  | mk result s' => cases result <;> simp only [Bytes.block_append, hexchange]

theorem dot_serve_nil (peer : Option SocketAddr) (s : σ) :
    DotServer.serveConnection codec handle peer [] s = .stop (.ok ()) s := by
  rw [DotServer.serveConnection]
  rfl

theorem dot_serve (peer : Option SocketAddr) {query : List UInt8} (hne : query ≠ []) (hquery : query.length ≤ 65535)
    (rest : List UInt8) (s : σ) :
    DotServer.serveConnection codec handle peer (Frames.frame query ++ rest) s =
      match exchange codec handle (DotServer.requestContext peer) query s with
      | (.error e, s) => .stop (.error e) s
      | (.ok data, s) =>
        if data.length ≤ 65535 then
          let more := DotServer.serveConnection codec handle peer rest s
          ⟨more.result, data :: more.returned, Frames.frame data ++ more.written, more.state⟩
        else ⟨.error (responseTooLarge "DoT" data), [data], [], s⟩ := by
  rw [DotServer.serveConnection]
  have hzero : ¬(query.length = 0 ∨ 65535 < query.length) := by
    rw [List.length_eq_zero_iff, not_or, Nat.not_lt]
    exact ⟨hne, hquery⟩
  split
  · rename_i hnone
    rw [readLength_frame hquery] at hnone
    cases hnone
  · rename_i hsome
    rw [readLength_frame hquery] at hsome
    cases hsome
    rw [if_neg hzero]
    split
    · rename_i hnone
      rw [Bytes.block_append] at hnone
      cases hnone
    · rename_i hsome'
      rw [Bytes.block_append] at hsome'
      cases hsome'
      rfl

/-! ### What is written -/

/-- The responses that are written, of those that the handler returned. -/
def sent : StreamServer → List (List UInt8) → List (List UInt8)
  | tcp _ _, datas | dot _, datas => datas.filter fun data => FitsFrame data
  | doq, datas => datas

/-- A connection asks the handler for the responses to the queries it hears, and writes frames. -/
structure Spec (server : StreamServer) (datas : List (List UInt8)) (served : Served σ) : Prop where
  returned : served.returned = datas
  written : served.written = (server.sent datas).flatMap Frames.frame

variable {server : StreamServer} {datas : List (List UInt8)}

theorem Spec.stop (server : StreamServer) (result : Except Error Unit) (s : σ) :
    Spec server [] (Served.stop result s) := ⟨rfl, by cases server <;> rfl⟩

theorem Spec.cons {data : List UInt8} (hdata : FitsFrame data) {served : Served σ} (h : Spec server datas served)
    (result : Except Error Unit) (s : σ) :
    Spec server (data :: datas) ⟨result, data :: served.returned, Frames.frame data ++ served.written, s⟩ := by
  have hsent : server.sent (data :: datas) = data :: server.sent datas := by
    cases server <;> simp only [sent, List.filter_cons, decide_eq_true hdata, if_true]
  refine ⟨congrArg (data :: ·) h.returned, ?_⟩
  rw [hsent, List.flatMap_cons, h.written]

theorem Spec.tooLong {server : StreamServer} {data : List UInt8} (hdata : ¬FitsFrame data) (hserver : server ≠ .doq)
    (e : Error) (s : σ) : Spec server [data] ⟨.error e, [data], [], s⟩ := by
  have hsent : server.sent [data] = [] := by
    cases server with
    | doq => exact absurd rfl hserver
    | tcp maxSize peer => simp only [sent, List.filter_cons, decide_eq_false hdata, Bool.false_eq_true, if_false, List.filter_nil]
    | dot peer => simp only [sent, List.filter_cons, decide_eq_false hdata, Bool.false_eq_true, if_false, List.filter_nil]
  refine ⟨rfl, ?_⟩
  rw [hsent, List.flatMap_nil]

variable (codec handle)

theorem spec_serve {server : StreamServer} {queries : List (List UInt8)} (haccepts : server.Accepts queries) (s : σ) :
    Spec server (responses codec handle server.context (server.heard queries) s)
      (server.serve codec handle (queries.flatMap Frames.frame) s) := by
  induction queries generalizing s with
  | nil =>
    cases server with
    | tcp maxSize peer => exact Spec.stop _ _ s
    | doq => exact Spec.stop _ _ s
    | dot peer =>
      rw [serve, List.flatMap_nil, dot_serve_nil]
      exact Spec.stop _ _ s
  | cons query queries ih =>
    obtain ⟨⟨hne, hquery⟩, hqueries⟩ := List.forall_mem_cons.mp haccepts
    rw [List.flatMap_cons]
    cases server with
    | tcp maxSize peer =>
      rw [serve, tcp_serve maxSize peer hquery, heard, List.take_succ_cons, List.take_zero, responses, context]
      cases exchange codec handle (TcpServer.requestContext peer) query s with
      | mk result s' =>
        cases result with
        | error e => exact Spec.stop _ _ s'
        | ok data =>
          dsimp only
          rw [responses, ite_self]
          by_cases hdata : data.length ≤ 65535
          · rw [if_pos hdata]
            simpa only [Served.stop, List.append_nil] using
              (Spec.stop (.tcp maxSize peer) (.ok ()) s').cons hdata (.ok ()) s'
          · rw [if_neg hdata]
            have hserver : StreamServer.tcp maxSize peer ≠ .doq := nofun
            exact Spec.tooLong hdata hserver _ s'
    | doq =>
      rw [serve, doq_serve hquery, heard, List.take_succ_cons, List.take_zero, responses, context]
      cases exchange codec handle DoqServer.requestContext query s with
      | mk result s' =>
        cases result with
        | error e => exact Spec.stop _ _ s'
        | ok data =>
          dsimp only
          rw [responses, ite_self]
          exact ⟨rfl, (List.append_nil _).symm⟩
    | dot peer =>
      have hrest := ih hqueries
      rw [serve, heard, context] at hrest ⊢
      rw [dot_serve peer hne hquery, responses]
      cases exchange codec handle (DotServer.requestContext peer) query s with
      | mk result s' =>
        cases result with
        | error e => exact Spec.stop _ _ s'
        | ok data =>
          dsimp only
          by_cases hdata : FitsFrame data
          · have hlength : data.length ≤ 65535 := hdata
            rw [if_pos hdata, if_pos hlength]
            exact (hrest s').cons hdata _ _
          · have hlength : ¬data.length ≤ 65535 := hdata
            rw [if_neg hdata, if_neg hlength]
            have hserver : StreamServer.dot peer ≠ .doq := nofun
            exact Spec.tooLong hdata hserver _ s'

/-- At most the first query of a DoQ stream is answered. -/
theorem length_responses_doq (queries : List (List UInt8)) (s : σ) :
    (responses codec handle DoqServer.requestContext (queries.take 1) s).length ≤ 1 := by
  cases queries with
  | nil => exact Nat.zero_le 1
  | cons query queries =>
    rw [List.take_succ_cons, List.take_zero, responses]
    cases exchange codec handle DoqServer.requestContext query s with
    | mk result s' =>
      cases result with
      | error e => exact Nat.zero_le 1
      | ok data =>
        dsimp only
        rw [responses, ite_self]
        exact Nat.le_refl 1

/-- A client reads the responses back exactly if they are not sent over DoQ, or all fit. -/
theorem framed_iff {server : StreamServer} {queries : List (List UInt8)} (haccepts : server.Accepts queries) (s : σ) :
    server.Framed codec handle queries s ↔
      (server = .doq → ∀ data ∈ responses codec handle server.context (server.heard queries) s, FitsFrame data) := by
  have hspec := spec_serve codec handle haccepts s
  have hfits : ∀ datas : List (List UInt8), ∀ data ∈ datas.filter (fun data => FitsFrame data), data.length ≤ 65535 :=
    fun datas data hdata => of_decide_eq_true (List.mem_filter.mp hdata).2
  rw [Framed, hspec.written]
  cases server with
  | tcp maxSize peer => exact iff_of_true (readAll_flatMap_frame (hfits _)) nofun
  | dot peer => exact iff_of_true (readAll_flatMap_frame (hfits _)) nofun
  | doq =>
    have hlength := length_responses_doq codec handle queries s
    rw [sent, heard, context] at *
    constructor
    · intro hread _ data hdata
      by_contra hlong
      -- The one response is the long one: nothing is left to read, and still something is written.
      obtain ⟨only, honly⟩ :=
        List.length_eq_one_iff.mp (Nat.le_antisymm hlength (List.length_pos_of_mem hdata))
      rw [honly, List.mem_singleton] at hdata
      subst hdata
      rw [honly, List.filter_cons_of_neg (by rwa [decide_eq_true_iff]), List.filter_nil] at hread
      have hnil := eq_nil_of_readAll hread
      rw [List.flatMap_singleton] at hnil
      exact frame_ne_nil data hnil
    · intro hall
      have hkeep := List.filter_eq_self.mpr fun data hdata => decide_eq_true (hall rfl data hdata)
      rw [hkeep]
      exact readAll_flatMap_frame (hall rfl)

/-- A codec that serializes every response to `n` bytes. -/
def padding (n : Nat) : Codec := ⟨fun _ => .ok .new, fun _ => .ok (List.replicate n 0)⟩

/-- Two queries over DoT and one over DoQ, with short responses. -/
theorem framed_iff_short :
    StreamServer.Framed (padding 3) (fun _ n => (.ok .new, n + 1)) (.dot none) [[7], [8]] 0 ∧
      StreamServer.Framed (padding 3) (fun _ n => (.ok .new, n + 1)) .doq [[7]] 0 ∧
      (∀ data ∈ responses (padding 3) (fun _ n => (.ok .new, n + 1)) DoqServer.requestContext [[7]] 0, FitsFrame data) ∧
      (StreamServer.doq.serve (padding 3) (fun _ n => (.ok .new, n + 1)) (Frames.frame [7]) 0).written = [0, 3, 0, 0, 0] := by
  have hshort : ∀ data ∈ responses (padding 3) (fun _ n => (.ok .new, n + 1)) DoqServer.requestContext [[7]] 0,
      FitsFrame data := by decide
  refine ⟨(framed_iff _ _ (by decide) 0).mpr ?_, (framed_iff _ _ (by decide) 0).mpr fun _ => hshort, hshort, by decide⟩
  intro hdoq
  cases hdoq

private theorem not_framed_of_lt {n : Nat} (hn : 65535 < n) :
    ¬StreamServer.Framed (padding n) (fun _ s => (.ok .new, s)) .doq [[7]] () := by
  have haccepts : StreamServer.doq.Accepts [[7]] := by decide
  intro hframed
  rw [Framed, (spec_serve _ _ haccepts _).written] at hframed
  have hone : responses (padding n) (fun _ s => (.ok .new, s)) (context .doq) (heard .doq [[7]]) () =
      [List.replicate n 0] :=
    congrArg (_ :: ·) (ite_self _)
  rw [hone, List.filter_cons_of_neg] at hframed
  · exact frame_ne_nil _ ((List.append_nil _).symm.trans (eq_nil_of_readAll hframed))
  · rw [decide_eq_true_iff, FitsFrame, List.length_replicate]
    omega

/-- A response of 65536 bytes is written over DoQ, with a length of zero before it. -/
theorem not_framed_doq : ¬StreamServer.Framed (padding 65536) (fun _ s => (.ok .new, s)) .doq [[7]] () :=
  not_framed_of_lt (Nat.lt_succ_self _)

end StreamServer

end Lazydns
