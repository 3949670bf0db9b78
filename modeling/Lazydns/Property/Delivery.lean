import Lazydns.Property.Ownership
import Lazydns.Property.Response

/-!
# Whose response a query gets

The read loop knows a response by its id and its source only. While an id is registered only when no response under it is on its way from the same upstream, and while nothing comes from the upstream of a registered id but answers to the query that has it, every query gets responses to its own request. A response that comes after its query was given up, and after the counter has come round to the id once more, is passed to the query that has the id then.
-/

namespace Lazydns

open Dns

namespace UdpMux

/-! ### The condition and the invariants -/

/-- The read loop has no response under the id that it would pass to an entry for the upstream. -/
def Reader.Clear (qid : UInt16) (upstream : String) : Reader → Prop
  | receiving => True
  | looking d => d.response.id = qid → d.source ≠ upstream
  -- the peer has been compared with an entry that may be gone by now
  | removing d => d.response.id ≠ qid

/-- Where a query registers its id, no response under the id is on its way from its upstream; and what its upstream or anyone in its upstream's name sends under the id while the entry is there is an answer to that query. -/
def Apart (s : System) : Event → System → Prop
  | .act c .insert, _ => ∀ call qid, s.calls c = some call → call.stage = .assigned qid →
      (∀ d ∈ s.network, d.response.id = qid → d.source ≠ call.upstream) ∧
        s.reader.Clear qid call.upstream
  | .answer k response, _ => ∀ q p, s.sent[k]? = some q → s.mux.pending response.id = some p →
      p.peer = q.peer → p.tx = q.call
  | .arrive source response, _ => ∀ p, s.mux.pending response.id = some p → p.peer ≠ source
  | _, _ => True

/-- The entry under a datagram's id, if it is for its source, is that of the query the datagram answers. -/
def UdpMuxState.Fits (m : UdpMuxState) (d : Datagram) : Prop :=
  ∀ p, m.pending d.response.id = some p → p.peer = d.source → d.answers = some p.tx

/-- Every response on its way fits, and the one whose peer has been compared is for the entry under its id. -/
structure InPlace (s : System) : Prop where
  network : ∀ d ∈ s.network, s.mux.Fits d
  looking : ∀ d, s.reader = .looking d → s.mux.Fits d
  removing : ∀ d p, s.reader = .removing d → s.mux.pending d.response.id = some p →
    d.answers = some p.tx

/-- The response on which the read loop works. -/
def Reader.datagram : Reader → Option Datagram
  | receiving => none
  | looking d | removing d => some d

/-- What is on the way, in a channel or returned was given by an upstream as an answer to that very call. -/
structure Genuine (env : Env) (produces : String → Hickory.Message → Message → Bool) (s : System) :
    Prop where
  sent : ∀ q ∈ s.sent, ∃ call h qid, s.calls q.call = some call ∧ call.upstream = q.peer ∧
    env.serialize call.request = some h ∧ q.wire = { h with id := qid }
  answered : ∀ c response, (c, response) ∈ s.answered →
    ∃ q ∈ s.sent, q.call = c ∧ produces q.peer q.wire response
  network : ∀ d ∈ s.network, ∀ c, d.answers = some c → (c, d.response) ∈ s.answered
  reader : ∀ d, s.reader.datagram = some d → ∀ c, d.answers = some c → (c, d.response) ∈ s.answered
  channels : ∀ c response, s.mux.channels c = .full response → (c, response) ∈ s.answered
  results : ∀ c call r, s.calls c = some call → call.stage.result = some (.ok r) →
    ∃ response, (c, response) ∈ s.answered ∧ r = { response with id := call.request.id }

variable {env : Env} {produces : String → Hickory.Message → Message → Bool} {s s' : System} {e : Event}

theorem inPlace_new : InPlace .new where
  network := fun _ h => absurd h List.not_mem_nil
  looking := fun _ h => by cases h
  removing := fun _ _ h => by cases h

theorem genuine_new : Genuine env produces .new where
  sent := fun _ h => absurd h List.not_mem_nil
  answered := fun _ _ h => absurd h List.not_mem_nil
  network := fun _ h => absurd h List.not_mem_nil
  reader := fun _ h => by cases h
  channels := fun _ _ h => by cases h
  results := fun _ _ _ h => by cases h

/-! ### A call's step -/

section

variable {c : Nat} {call : Call} {m m' : UdpMuxState} {a : Action} {st : Stage}

theorem Call.Moves.full (h : call.Moves env c m a st m') {c' : Nat} {response : Message}
    (hfull : m'.channels c' = .full response) : m.channels c' = .full response := by
  cases h with
  | insert hstage hserialize => exact UdpMuxState.dropSender_full.mp hfull
  | drop hstage => exact UdpMuxState.dropSender_full.mp hfull
  | _ => exact hfull

theorem Call.Moves.result (h : call.Moves env c m a st m') {r : Message}
    (hresult : st.result = some (.ok r)) : call.stage.result = some (.ok r) ∨
      ∃ response, m.channels c = .full response ∧ r = { response with id := call.request.id } := by
  cases h with
  | stay hguarded hstays hfull => exact .inr (hfull r hresult)
  | drop hstage =>
    rw [hstage]
    exact .inl hresult
  | _ => cases hresult

theorem Call.mem_emits {q : Query} (h : q ∈ call.emits env c a) : ∃ h qid,
    env.serialize call.request = some h ∧ q = ⟨c, call.upstream, { h with id := qid }⟩ := by
  cases a with
  | send =>
    rw [emits] at h
    split at h
    · rename_i qid hstage
      obtain ⟨wire, hwire, rfl⟩ := List.mem_map.mp h
      exact ⟨wire, qid, Option.mem_toList.mp hwire, rfl⟩
    · cases h
  | _ => cases h

end

/-! ### Responses stay in place -/

theorem UdpMuxState.look_eq_removing {m : UdpMuxState} {d d' : Datagram} (h : m.look d = .removing d') :
    d' = d ∧ ∃ p, m.pending d.response.id = some p ∧ d.source = p.peer := by
  rw [look] at h
  split at h
  · rename_i p hp
    split at h
    · rename_i hpeer
      cases h
      exact ⟨rfl, p, hp, hpeer⟩
    · cases h
  · cases h

theorem UdpMuxState.look_ne_looking {m : UdpMuxState} {d d' : Datagram} : m.look d ≠ .looking d' := by
  intro h
  rw [look] at h
  split at h
  · split at h <;> cases h
  · cases h

theorem UdpMuxState.deliver_pending {m : UdpMuxState} {response : Message} {qid : UInt16}
    {p : PendingQuery} (h : (m.deliver response).pending qid = some p) : m.pending qid = some p := by
  cases hp : m.pending response.id with
  | none => rwa [deliver_of_none hp] at h
  | some p' =>
    rw [deliver_of_some hp] at h
    dsimp only at h
    by_cases hqid : qid = response.id
    · rw [hqid, Function.update_self] at h
      cases h
    · rwa [Function.update_of_ne hqid] at h

/-- A call that registers an id which no response on the way has leaves each in place. -/
theorem InPlace.act (h : InPlace s) {c : Nat} {a : Action} {call : Call} {st : Stage} {m : UdpMuxState}
    (hapart : Apart s (.act c a) s') (hcall : s.calls c = some call)
    (hmoves : call.Moves env c s.mux a st m) (calls : Nat → Option Call) (sent : List Query) :
    InPlace { s with mux := m, calls := calls, sent := sent } where
  network := by
    intro d hd p hp hpeer
    rcases hmoves.pending hp with hp | ⟨rfl, hstage, rfl⟩
    · exact h.network d hd p hp hpeer
    · exact absurd hpeer.symm ((hapart call _ hcall hstage).1 d hd rfl)
  looking := by
    intro d hd p hp hpeer
    rcases hmoves.pending hp with hp | ⟨rfl, hstage, rfl⟩
    · exact h.looking d hd p hp hpeer
    · have hclear := (hapart call _ hcall hstage).2
      rw [show s.reader = .looking d from hd] at hclear
      exact absurd hpeer.symm (hclear rfl)
  removing := by
    intro d p hd hp
    rcases hmoves.pending hp with hp | ⟨rfl, hstage, rfl⟩
    · exact h.removing d p hd hp
    · have hclear := (hapart call _ hcall hstage).2
      rw [show s.reader = .removing d from hd] at hclear
      exact absurd rfl hclear

theorem InPlace.send (h : InPlace s) {d : Datagram} (hd : s.mux.Fits d)
    (answered : List (Nat × Message)) :
    InPlace { s with answered := answered, network := s.network ++ [d] } where
  network := fun d' hd' =>
    (List.mem_append.mp hd').elim (h.network d') fun hlast => List.mem_singleton.mp hlast ▸ hd
  looking := h.looking
  removing := h.removing

theorem step_inPlace (h : InPlace s) (hapart : Apart s e s') (hstep : step env produces s e = some s') :
    InPlace s' := by
  cases steps_of_step hstep with
  | call hnew => exact ⟨h.network, h.looking, h.removing⟩
  | act hcall hact => exact h.act hapart hcall (Call.moves_of_act hact) _ _
  | answer hq hproduces =>
    exact h.send (fun p hp hpeer => congrArg some (hapart _ p hq hp hpeer).symm) _
  | arrive => exact h.send (fun p hp hpeer => absurd hpeer (hapart p hp)) _
  | lose => exact ⟨fun d hd => h.network d (List.mem_of_mem_eraseIdx hd), h.looking, h.removing⟩
  | receive hd =>
    refine ⟨fun d' hd' => h.network d' (List.mem_of_mem_eraseIdx hd'), fun d' hd' => ?_,
      fun d' p hd' => (by cases hd')⟩
    cases hd'
    exact h.network _ hd
  | look hreader =>
    refine ⟨h.network, fun d' hd' => absurd hd' UdpMuxState.look_ne_looking, fun d' p hd' hp => ?_⟩
    obtain ⟨rfl, p', hp', hpeer⟩ := UdpMuxState.look_eq_removing hd'
    have hsame : p' = p := Option.some.inj (hp'.symm.trans hp)
    exact h.looking d' hreader p hp (hsame ▸ hpeer.symm)
  | remove hreader =>
    refine ⟨fun d' hd' p hp => h.network d' hd' p (UdpMuxState.deliver_pending hp),
      fun d' hd' => (by cases hd'), fun d' p hd' => (by cases hd')⟩

/-! ### Responses are genuine -/

namespace Genuine

theorem call (h : Genuine env produces s) {c : Nat} {request : Message} {upstream : String}
    (hnew : s.calls c = none) : Genuine env produces
      { s with calls := Function.update s.calls c (some ⟨request, upstream, .allocating⟩) } := by
  refine ⟨fun q hq => ?_, h.answered, h.network, h.reader, h.channels, fun c' call r hcall hr => ?_⟩
  · obtain ⟨call, wire, qid, hcall, hrest⟩ := h.sent q hq
    have hc : q.call ≠ c := by
      intro hc
      rw [hc, hnew] at hcall
      cases hcall
    exact ⟨call, wire, qid, (Function.update_of_ne hc ..).trans hcall, hrest⟩
  · rcases update_calls_cases hcall with ⟨rfl, rfl⟩ | ⟨-, hcall⟩
    · cases hr
    · exact h.results c' call r hcall hr

theorem act (h : Genuine env produces s) {c : Nat} {a : Action} {call : Call} {st : Stage} {m : UdpMuxState}
    (hcall : s.calls c = some call) (hmoves : call.Moves env c s.mux a st m) : Genuine env produces
      { s with
        mux := m
        calls := Function.update s.calls c (some { call with stage := st })
        sent := s.sent ++ call.emits env c a } := by
  have hsent : ∀ q ∈ s.sent ++ call.emits env c a, ∃ call' wire qid,
      Function.update s.calls c (some { call with stage := st }) q.call = some call' ∧
        call'.upstream = q.peer ∧ env.serialize call'.request = some wire ∧
        q.wire = { wire with id := qid } := by
    intro q hq
    rcases List.mem_append.mp hq with hq | hq
    · obtain ⟨call', wire, qid, hcall', hrest⟩ := h.sent q hq
      by_cases hc : q.call = c
      · rw [hc, hcall] at hcall'
        cases hcall'
        exact ⟨{ call with stage := st }, wire, qid, by rw [hc, Function.update_self], hrest⟩
      · exact ⟨call', wire, qid, by rwa [Function.update_of_ne hc], hrest⟩
    · obtain ⟨wire, qid, hserialize, rfl⟩ := Call.mem_emits hq
      exact ⟨{ call with stage := st }, wire, qid, Function.update_self .., rfl, hserialize, rfl⟩
  refine ⟨hsent, fun c' response hanswered => ?_, h.network, h.reader,
    fun c' response hfull => h.channels c' response (hmoves.full hfull), fun c' call' r hcall' hr => ?_⟩
  · obtain ⟨q, hq, hrest⟩ := h.answered c' response hanswered
    exact ⟨q, List.mem_append_left _ hq, hrest⟩
  · rcases update_calls_cases hcall' with ⟨rfl, rfl⟩ | ⟨-, hcall'⟩
    · rcases hmoves.result hr with hr | ⟨response, hfull, rfl⟩
      · exact h.results c' call r hcall hr
      · exact ⟨response, h.channels c' response hfull, rfl⟩
    · exact h.results c' call' r hcall' hr

theorem answer (h : Genuine env produces s) {q : Query} {response : Message} (hq : q ∈ s.sent)
    (hproduces : produces q.peer q.wire response) : Genuine env produces
      { s with
        answered := s.answered ++ [(q.call, response)]
        network := s.network ++ [⟨q.peer, response, some q.call⟩] } := by
  have hmono : ∀ {c response'}, (c, response') ∈ s.answered →
      (c, response') ∈ s.answered ++ [(q.call, response)] := List.mem_append_left _
  refine ⟨h.sent, fun c response' hanswered => ?_, fun d hd c hc => ?_,
    fun d hd c hc => hmono (h.reader d hd c hc), fun c response' hfull => hmono (h.channels c _ hfull),
    fun c call r hcall hr => ?_⟩
  · rcases List.mem_append.mp hanswered with hanswered | hanswered
    · exact h.answered c response' hanswered
    · cases List.mem_singleton.mp hanswered
      exact ⟨q, hq, rfl, hproduces⟩
  · rcases List.mem_append.mp hd with hd | hd
    · exact hmono (h.network d hd c hc)
    · cases List.mem_singleton.mp hd
      cases hc
      exact List.mem_append_right _ (List.mem_singleton.mpr rfl)
  · obtain ⟨response', hanswered, hr⟩ := h.results c call r hcall hr
    exact ⟨response', hmono hanswered, hr⟩

/-- The network and the read loop may pass datagrams on, lose them, or have new ones that answer nobody. -/
theorem moved (h : Genuine env produces s) {network : List Datagram} {reader : Reader}
    (hnetwork : ∀ d ∈ network, d ∈ s.network ∨ d.answers = none)
    (hreader : ∀ d, reader.datagram = some d → d ∈ s.network ∨ s.reader.datagram = some d) :
    Genuine env produces { s with network := network, reader := reader } := by
  refine ⟨h.sent, h.answered, fun d hd c hc => ?_, fun d hd c hc => ?_, h.channels, h.results⟩
  · rcases hnetwork d hd with hd | hnone
    · exact h.network d hd c hc
    · rw [hnone] at hc
      cases hc
  · exact (hreader d hd).elim (fun hd => h.network d hd c hc) (fun hd => h.reader d hd c hc)

/-- A response goes to the channel of the query it answers. -/
theorem remove (h : Genuine env produces s) {d : Datagram} (hreader : s.reader = .removing d)
    (hplace : ∀ p, s.mux.pending d.response.id = some p → d.answers = some p.tx) :
    Genuine env produces { s with mux := s.mux.deliver d.response, reader := .receiving } := by
  refine ⟨h.sent, h.answered, h.network, fun _ hd => (by cases hd),
    fun c response hfull => ?_, h.results⟩
  dsimp only at hfull
  cases hp : s.mux.pending d.response.id with
  | none =>
    rw [UdpMuxState.deliver_of_none hp] at hfull
    exact h.channels c response hfull
  | some p =>
    rw [UdpMuxState.deliver_of_some hp] at hfull
    dsimp only at hfull
    by_cases hc : c = p.tx
    · subst hc
      rw [Function.update_self] at hfull
      cases hfull
      exact h.reader d (by rw [hreader]; rfl) p.tx (hplace p hp)
    · rw [Function.update_of_ne hc] at hfull
      exact h.channels c response hfull

end Genuine

theorem UdpMuxState.look_datagram {m : UdpMuxState} {d d' : Datagram}
    (h : (m.look d).datagram = some d') : d' = d := by
  cases hlook : m.look d with
  | receiving =>
    rw [hlook] at h
    cases h
  | looking _ => exact absurd hlook look_ne_looking
  | removing d'' =>
    rw [hlook] at h
    cases h
    exact (look_eq_removing hlook).1

theorem step_genuine (h : Genuine env produces s) (hplace : InPlace s)
    (hstep : step env produces s e = some s') : Genuine env produces s' := by
  cases steps_of_step hstep with
  | call hnew => exact h.call hnew
  | act hcall hact => exact h.act hcall (Call.moves_of_act hact)
  | answer hq hproduces => exact h.answer (List.mem_of_getElem? hq) hproduces
  | arrive =>
    refine h.moved (fun d hd => ?_) (fun d => .inr)
    exact (List.mem_append.mp hd).imp_right fun hlast => by rw [List.mem_singleton.mp hlast]
  | lose => exact h.moved (fun d hd => .inl (List.mem_of_mem_eraseIdx hd)) (fun d => .inr)
  | receive hd =>
    refine h.moved (fun d' hd' => .inl (List.mem_of_mem_eraseIdx hd')) (fun d' hd' => .inl ?_)
    cases hd'
    exact hd
  | look hreader =>
    refine h.moved (fun d' => .inl) (fun d' hd' => .inr ?_)
    rw [UdpMuxState.look_datagram hd', hreader]
    rfl
  | remove hreader => exact h.remove hreader fun p => hplace.removing _ p hreader

theorem genuine_of_run {events : List Event} (hrun : (machine env produces).run .new events = some s)
    (hapart : (machine env produces).Each Apart .new events) : Genuine env produces s := by
  have hstep : ∀ s e s', Genuine env produces s ∧ InPlace s → Apart s e s' →
      step env produces s e = some s' → Genuine env produces s' ∧ InPlace s' :=
    fun s e s' h hC hs => ⟨step_genuine h.1 h.2 hs, step_inPlace h.2 hC hs⟩
  exact (Machine.run_keeps (I := fun s => Genuine env produces s ∧ InPlace s) (C := Apart) hstep
    ⟨genuine_new, inPlace_new⟩ hapart hrun).1

/-! ### What a call returns -/

theorem Genuine.produced (h : Genuine env produces s) {c : Nat} {call : Call} {r : Message}
    (hcall : s.calls c = some call) (hr : call.stage.result = some (.ok r)) :
    ∃ response wire qid, (c, response) ∈ s.answered ∧ env.serialize call.request = some wire ∧
      produces call.upstream { wire with id := qid } response ∧
      r = { response with id := call.request.id } := by
  obtain ⟨response, hanswered, rfl⟩ := h.results c call r hcall hr
  obtain ⟨q, hq, rfl, hproduces⟩ := h.answered c response hanswered
  obtain ⟨call', wire, qid, hcall', hpeer, hserialize, hwire⟩ := h.sent q hq
  rw [hcall] at hcall'
  cases hcall'
  rw [← hpeer, hwire] at hproduces
  exact ⟨response, wire, qid, hanswered, hserialize, hproduces, rfl⟩

/-- So the plugin sees one exchange with the upstream: the response that answered the call, under the id it was sent with. -/
theorem Genuine.forwardQuery (h : Genuine env produces s) {c : Nat} {call : Call} {r : Message}
    (hcall : s.calls c = some call) (hr : call.stage.result = some (.ok r))
    (hudp : ForwardPlugin.isDoh call.upstream = false) :
    ∃ wire response qid, env.serialize call.request = some wire ∧
      produces call.upstream { wire with id := qid } response ∧
      ∀ n, env.qid n = qid → (env.exchange n call.upstream { wire with id := qid }).1 = .ok response →
        (ForwardPlugin.forwardQuery env n call.request call.upstream).1 = .ok r := by
  obtain ⟨response, wire, qid, -, hserialize, hproduces, rfl⟩ := h.produced hcall hr
  refine ⟨wire, response, qid, hserialize, hproduces, ?_⟩
  rintro n rfl hexchange
  simp [ForwardPlugin.forwardQuery, ForwardPlugin.wireQuery, ForwardPlugin.restoreId, hserialize, hudp,
    hexchange, Except.map]

/-- In every run in which ids are registered and answered apart: a response that a call returns is one that its upstream gave to this call, under the request's id, and it has the request's questions exactly if these come back from an upstream that repeats what it is asked. -/
theorem delivery_of_apart {toUtf8 : Hickory.Name → String} {events : List Event}
    (hquestion : ∀ peer wire response, produces peer wire response →
      response.questions = wire.queries.map (convertHickoryQuery toUtf8))
    (hrun : (machine env produces).run .new events = some s)
    (hapart : (machine env produces).Each Apart .new events) {c : Nat} {call : Call} {r : Message}
    (hcall : s.calls c = some call) (hr : call.stage.result = some (.ok r)) :
    (∃ response wire qid, (c, response) ∈ s.answered ∧ env.serialize call.request = some wire ∧
      produces call.upstream { wire with id := qid } response ∧
      r = { response with id := call.request.id }) ∧
      (r.questions = call.request.questions ↔
        ∀ q ∈ call.request.questions, q.ComesBack toUtf8 env.fromUtf8) := by
  have hproduced := (genuine_of_run hrun hapart).produced hcall hr
  refine ⟨hproduced, ?_⟩
  obtain ⟨response, wire, qid, -, hserialize, hproduces, rfl⟩ := hproduced
  have hasked : response.questions = wire.queries.map (convertHickoryQuery toUtf8) :=
    hquestion call.upstream { wire with id := qid } response hproduces
  rw [← map_convertHickoryQuery_eq_iff (env.serialize_queries hserialize), ← hasked]

/-- An upstream that repeats the id and the question of each query. -/
def repeats (toUtf8 : Hickory.Name → String) (_ : String) (wire : Hickory.Message) (response : Message) :
    Bool :=
  response.id == wire.id && response.questions == wire.queries.map (convertHickoryQuery toUtf8)

theorem repeats_iff {toUtf8 : Hickory.Name → String} {peer : String} {wire : Hickory.Message}
    {response : Message} : repeats toUtf8 peer wire response ↔
      response.id = wire.id ∧ response.questions = wire.queries.map (convertHickoryQuery toUtf8) := by
  rw [repeats, Bool.and_eq_true, beq_iff_eq, beq_iff_eq]

section

variable {request other : Message} {upstream : String} {h h' : Hickory.Message}
  {response response' : Message} {c k : Nat} {qid : UInt16} {q : Query}

/-- A query whose response does not come in time. -/
def timedOut (request : Message) (upstream : String) : List Event :=
  register 0 request upstream ++ [.act 0 .send, .act 0 .timeout, .act 0 .drop]

variable (produces upstream) in
theorem run_timedOut (hserialize : env.serialize request = some h) :
    ∃ s, (machine env produces).run .new (timedOut request upstream) = some s ∧
      s.mux.pending = (fun _ => none) ∧ s.mux.nextQid = 2 ∧
      (∀ c ≥ 1, s.calls c = none ∧ s.mux.channels c = .empty) ∧
      s.sent = [⟨0, upstream, { h with id := 1 }⟩] ∧ s.network = [] ∧ s.reader = .receiving := by
  have hfresh : ∀ (call : Call) c, 1 ≤ c → Function.update (fun _ => none) 0 (some call) c = none ∧
      Function.update (fun _ => Channel.empty) 0 .closed c = .empty := by
    intro call c hc
    have hc' : c ≠ 0 := Nat.pos_iff_ne_zero.mp hc
    rw [Function.update_of_ne hc', Function.update_of_ne hc']
    exact ⟨rfl, rfl⟩
  rw [timedOut, Machine.run_append_of_run (run_register hserialize rfl rfl (by decide) rfl)]
  simpa [Machine.run, machine, step, Call.act, Call.emits, hserialize, System.new, UdpMuxState.new,
    UdpMuxState.release, UdpMuxState.dropSender] using hfresh _

/-- An upstream answers a query it has received, and the read loop looks up the response. -/
def arrived (k : Nat) (response : Message) : List Event :=
  [.answer k response, .receive 0, .look]

variable (env) in
theorem run_arrived (hnetwork : s.network = []) (hreader : s.reader = .receiving)
    (hq : s.sent[k]? = some q) (hproduces : produces q.peer q.wire response = true) :
    (machine env produces).run s (arrived k response) = some { s with
      answered := s.answered ++ [(q.call, response)]
      network := []
      reader := s.mux.look ⟨q.peer, response, some q.call⟩ } := by
  simp [arrived, Machine.run, machine, step, hnetwork, hreader, hq, hproduces]

variable (env) in
/-- The call whose id a response from its upstream has takes it. -/
theorem run_taken (hnetwork : s.network = []) (hreader : s.reader = .receiving)
    (hq : s.sent[k]? = some q) (hproduces : produces q.peer q.wire response = true)
    (hpending : s.mux.pending response.id = some ⟨q.peer, c⟩)
    (hcall : s.calls c = some ⟨request, upstream, .waiting qid⟩) :
    ∃ t, (machine env produces).run s (arrived k response ++ [.remove, .act c .take]) = some t ∧
      t.calls c = some ⟨request, upstream, .leaving qid (some (.ok { response with id := request.id }))⟩ := by
  rw [Machine.run_append_of_run (run_arrived env hnetwork hreader hq hproduces)]
  simp [Machine.run, machine, step, Call.act, UdpMuxState.look, UdpMuxState.deliver, hpending, hcall]

def Event.IsOfCall : Event → Prop
  | call _ _ _ | act _ _ => True
  | _ => False

/-- While nothing is on the way, the calls keep apart. -/
theorem each_apart_of_isOfCall {events : List Event} (hnetwork : s.network = [])
    (hreader : s.reader = .receiving) (hevents : ∀ e ∈ events, e.IsOfCall) :
    (machine env produces).Each Apart s events := by
  refine Machine.each_of_keeps (I := fun s => s.network = [] ∧ s.reader = .receiving)
    (C := fun _ e _ => e.IsOfCall) ?_ ⟨hnetwork, hreader⟩
    (Machine.each_of_forall fun e he _ _ => hevents e he)
  intro s e s' hquiet he hstep
  cases steps_of_step hstep with
  | call => exact ⟨hquiet, trivial⟩
  | act =>
    rename_i c a call st m hcall hact
    refine ⟨hquiet, ?_⟩
    cases a with
    | insert =>
      intro call qid _ _
      simp only [hquiet.1, hquiet.2]
      exact ⟨fun d hd => absurd hd List.not_mem_nil, trivial⟩
    | _ => trivial
  | answer | arrive | lose | receive | look | remove => exact he.elim

theorem each_apart_arrived (hq : s.sent[k]? = some q)
    (hown : ∀ p, s.mux.pending response.id = some p → p.peer = q.peer → p.tx = q.call) :
    (machine env produces).Each Apart s (arrived k response) := by
  refine fun _ _ => ⟨?_, fun _ _ => ⟨trivial, fun _ _ => ⟨trivial, trivial⟩⟩⟩
  intro q' p hq' hp
  obtain rfl := Option.some.inj (hq.symm.trans hq')
  exact hown p hp

/-- A query times out, and the next one to the same upstream gets the next id. -/
def givenUp (request other : Message) (upstream : String) : List Event :=
  timedOut request upstream ++ register 1 other upstream ++ [.act 1 .send]

/-- The upstream answers both queries, the one that was given up first. -/
def bothAnswered (response response' : Message) : List Event :=
  arrived 0 response ++ (arrived 1 response' ++ [.remove, .act 1 .take])

variable (produces upstream) in
/-- The second query then waits under the next id, and nothing waits under the first one's. -/
theorem run_givenUp (hserialize : env.serialize request = some h)
    (hserialize' : env.serialize other = some h') :
    ∃ s, (machine env produces).run .new (givenUp request other upstream) = some s ∧
      s.mux.pending = Function.update (fun _ => none) 2 (some ⟨upstream, 1⟩) ∧
      s.calls 1 = some ⟨other, upstream, .waiting 2⟩ ∧
      s.sent = [⟨0, upstream, { h with id := 1 }⟩, ⟨1, upstream, { h' with id := 2 }⟩] ∧
      s.network = [] ∧ s.reader = .receiving := by
  obtain ⟨s, hs, hpending, hnext, hfresh, hsent, hnetwork, hreader⟩ :=
    run_timedOut produces upstream hserialize
  rw [givenUp, List.append_assoc, Machine.run_append_of_run hs,
    Machine.run_append_of_run (run_register hserialize' (hfresh 1 le_rfl).1 hnext (by decide) (by rw [hpending]))]
  simp [Machine.run, machine, step, Call.act, Call.emits, hserialize', hpending, hsent, hnetwork, hreader]

/-- The read loop passes the late response to nobody, and the second query returns its own. -/
theorem run_bothAnswered (hserialize : env.serialize request = some h)
    (hserialize' : env.serialize other = some h') (hid : response.id = 1) (hid' : response'.id = 2)
    (hproduces : produces upstream { h with id := 1 } response = true)
    (hproduces' : produces upstream { h' with id := 2 } response' = true) :
    ∃ t, (machine env produces).run .new (givenUp request other upstream ++ bothAnswered response response') =
        some t ∧
      (machine env produces).Each Apart .new
        (givenUp request other upstream ++ bothAnswered response response') ∧
      t.calls 1 =
        some ⟨other, upstream, .leaving 2 (some (.ok { response' with id := other.id }))⟩ := by
  obtain ⟨s, hs, hpending, hcall, hsent, hnetwork, hreader⟩ :=
    run_givenUp produces upstream hserialize hserialize'
  have hfirst : s.sent[0]? = some ⟨0, upstream, { h with id := 1 }⟩ := by rw [hsent]; rfl
  have hsecond : s.sent[1]? = some ⟨1, upstream, { h' with id := 2 }⟩ := by rw [hsent]; rfl
  have hlate : s.mux.pending response.id = none := by rw [hpending, hid]; rfl
  have hown : s.mux.pending response'.id = some ⟨upstream, 1⟩ := by rw [hpending, hid']; rfl
  have hlook : s.mux.look ⟨upstream, response, some 0⟩ = .receiving := by rw [UdpMuxState.look, hlate]
  have hpassed := run_arrived env hnetwork hreader hfirst hproduces
  rw [hlook] at hpassed
  obtain ⟨t, ht, hresult⟩ := run_taken env (s := { s with
    answered := s.answered ++ [(0, response)], network := [], reader := .receiving })
    rfl rfl hsecond hproduces' hown hcall
  refine ⟨t, ?_, ?_, hresult⟩
  · rw [Machine.run_append_of_run hs, bothAnswered, Machine.run_append_of_run hpassed, ht]
  · rw [Machine.each_append_of_run hs, bothAnswered, Machine.each_append_of_run hpassed]
    refine ⟨each_apart_of_isOfCall rfl rfl ?_, each_apart_arrived hfirst ?_,
      Iff.mpr (Machine.each_append_of_run (run_arrived env rfl rfl hsecond hproduces'))
        ⟨each_apart_arrived hsecond ?_, ?_⟩⟩
    · simp [givenUp, timedOut, register, Event.IsOfCall]
    · intro p hp
      cases hlate.symm.trans hp
    · intro p hp _
      cases hown.symm.trans hp
      rfl
    · exact fun _ _ => ⟨trivial, fun _ _ => ⟨trivial, trivial⟩⟩

/-- A query times out; the counter goes once round and another query to the same upstream gets its id; then the upstream answers the first one. -/
def late (request other : Message) (upstream : String) (response : Message) (e : Error) : List Event :=
  timedOut request upstream ++ (lap request upstream e 1 65534 ++
    ([.call 65535 other upstream, .act 65535 .allocate, .act 65535 .check, .act 65535 .allocate,
      .act 65535 .check, .act 65535 .insert, .act 65535 .send] ++
      (arrived 0 response ++ [.remove, .act 65535 .take])))

/-- The other query returns that response. -/
theorem run_late (e : Error) (hserialize : env.serialize request = some h)
    (hserialize' : env.serialize other = some h') (hid : response.id = 1)
    (hproduces : produces upstream { h with id := 1 } response = true) :
    ∃ t, (machine env produces).run .new (late request other upstream response e) = some t ∧
      t.calls 65535 =
        some ⟨other, upstream, .leaving 1 (some (.ok { response with id := other.id }))⟩ := by
  obtain ⟨s, hs, hpending, hnext, hfresh, hsent, hnetwork, hreader⟩ :=
    run_timedOut produces upstream hserialize
  obtain ⟨t, ht, hpending', hnext', -, hfresh', hsent', -, hnetwork', hreader'⟩ := run_lap produces upstream
    (n := 2) e hserialize hnext (by decide) hfresh 65534 le_rfl
    (fun _ _ _ => by rw [hpending])
  have hnone := hfresh' 65535 le_rfl
  have hzero : t.mux.nextQid = 0 := hnext'
  rw [hpending] at hpending'
  rw [hsent] at hsent'
  obtain ⟨t', ht', hown, hcall, hfirst, hquiet⟩ : ∃ t', (machine env produces).run t
      [.call 65535 other upstream, .act 65535 .allocate, .act 65535 .check, .act 65535 .allocate,
        .act 65535 .check, .act 65535 .insert, .act 65535 .send] = some t' ∧
      t'.mux.pending 1 = some ⟨upstream, 65535⟩ ∧ t'.calls 65535 = some ⟨other, upstream, .waiting 1⟩ ∧
      t'.sent[0]? = some ⟨0, upstream, { h with id := 1 }⟩ ∧ t'.network = t.network ∧ t'.reader = t.reader := by
    simp [Machine.run, machine, step, Call.act, Call.emits, hnone, hzero, hpending', hsent', hserialize',
      UdpMuxState.insert, UdpMuxState.dropSender]
  rw [late, Machine.run_append_of_run hs, Machine.run_append_of_run ht, Machine.run_append_of_run ht']
  exact run_taken env (hquiet.1.trans (hnetwork'.trans hnetwork)) (hquiet.2.trans (hreader'.trans hreader)) hfirst
    hproduces (hid ▸ hown) hcall

end

theorem serialize_a : ∃ h, Env.echoing.serialize (.ask 7 "a" .A) = some h ∧
    repeats dotted "192.0.2.1:53" { h with id := 1 } { Message.ask 1 "a" .A with qr := true } = true :=
  Option.map_eq_some_iff.mp (by decide +kernel : (Env.echoing.serialize (.ask 7 "a" .A)).map (fun h =>
    repeats dotted "192.0.2.1:53" { h with id := 1 } { Message.ask 1 "a" .A with qr := true }) = some true)

theorem comesBack_b : (⟨"b", .A, .IN⟩ : Question).ComesBack dotted ofDotted := by
  refine ⟨rfl, rfl, fun name hname => ?_⟩
  obtain rfl : [[98]] = name := Option.some.inj ((by decide +kernel : some [[98]] = ofDotted "b").trans hname)
  decide +kernel

/-- A query for `a` is given up; then the upstream answers it, and one for `b`. -/
def aThenB : List Event :=
  givenUp (.ask 7 "a" .A) (.ask 8 "b" .A) "192.0.2.1:53" ++
    bothAnswered { Message.ask 1 "a" .A with qr := true } { Message.ask 2 "b" .A with qr := true }

/-- The query for `b` returns the answer to its question. -/
theorem late_answer_passes_by :
    ∃ t, (machine .echoing (repeats dotted)).run .new aThenB = some t ∧
      (machine .echoing (repeats dotted)).Each Apart .new aThenB ∧ t.calls 1 = some ⟨.ask 8 "b" .A, "192.0.2.1:53",
        .leaving 2 (some (.ok { Message.ask 8 "b" .A with qr := true }))⟩ ∧
      (∃ response wire qid, (1, response) ∈ t.answered ∧
        Env.echoing.serialize (.ask 8 "b" .A) = some wire ∧
        repeats dotted "192.0.2.1:53" { wire with id := qid } response ∧
        { Message.ask 8 "b" .A with qr := true } = { response with id := 8 }) ∧
      ({ Message.ask 8 "b" .A with qr := true } : Message).questions = (Message.ask 8 "b" .A).questions := by
  obtain ⟨h, hserialize, hproduces⟩ := serialize_a
  obtain ⟨h', hserialize', hproduces'⟩ := Option.map_eq_some_iff.mp
    (by decide +kernel : (Env.echoing.serialize (.ask 8 "b" .A)).map (fun h =>
      repeats dotted "192.0.2.1:53" { h with id := 2 } { Message.ask 2 "b" .A with qr := true }) = some true)
  obtain ⟨t, hrun, hapart, hcall⟩ := run_bothAnswered hserialize hserialize' rfl rfl hproduces hproduces'
  obtain ⟨hproduced, hquestions⟩ := delivery_of_apart (fun _ _ _ h => (repeats_iff.mp h).2) hrun hapart
    hcall rfl
  exact ⟨t, hrun, hapart, hcall, hproduced, hquestions.mpr fun q hq => List.mem_singleton.mp hq ▸ comesBack_b⟩

/-- The query for `b` returns the answer to the earlier query for `a`, which no upstream gave to it. -/
theorem not_delivery_late : ¬ ∀ (env : Env) (toUtf8 : Hickory.Name → String)
    (produces : String → Hickory.Message → Message → Bool)
    (events : List Event) (s : System) (c : Nat) (call : Call) (r : Message),
    (∀ peer wire response, produces peer wire response → response.id = wire.id ∧
      response.questions = wire.queries.map (convertHickoryQuery toUtf8)) →
    (∀ q ∈ call.request.questions, q.ComesBack toUtf8 env.fromUtf8) →
    (machine env produces).run .new events = some s → s.calls c = some call →
    call.stage.result = some (.ok r) → r.questions = call.request.questions := by
  intro hclaim
  obtain ⟨h, hserialize, hproduces⟩ := serialize_a
  obtain ⟨h', hserialize'⟩ := Option.isSome_iff_exists.mp
    (by decide +kernel : (Env.echoing.serialize (.ask 8 "b" .A)).isSome)
  obtain ⟨t, hrun, hcall⟩ :=
    run_late (.other "Network is unreachable") hserialize hserialize' rfl hproduces
  have hsame := hclaim .echoing dotted (repeats dotted) _ t 65535
    ⟨.ask 8 "b" .A, "192.0.2.1:53", _⟩ _ (fun _ _ _ => repeats_iff.mp)
    (fun q hq => List.mem_singleton.mp hq ▸ comesBack_b) hrun hcall rfl
  exact absurd hsame (by decide)

end UdpMux

end Lazydns
