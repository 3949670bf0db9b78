import Lazydns.Plugin.Mux

/-!
# What a step of the multiplexer does

The inversions of a call's step and of the system's, and what follows for the entries of the map and for the channels. Only calls and the read loop touch them.
-/

namespace Lazydns

open Dns

namespace UdpMux

/-! ### The map and the channels -/

namespace UdpMuxState

variable {m : UdpMuxState} {qid : UInt16} {p : PendingQuery} {response : Message} {c : Nat}

theorem insert_pending (qid : UInt16) (p : PendingQuery) (m : UdpMuxState) :
    (m.insert qid p).pending = Function.update m.pending qid (some p) := rfl

theorem release_pending (qid : UInt16) (m : UdpMuxState) :
    (m.release qid).pending = Function.update m.pending qid none := rfl

theorem insert_channels (qid : UInt16) (p : PendingQuery) (m : UdpMuxState) :
    (m.insert qid p).channels = (m.dropSender qid).channels := rfl

theorem release_channels (qid : UInt16) (m : UdpMuxState) :
    (m.release qid).channels = (m.dropSender qid).channels := rfl

/-- Dropping an entry leaves every channel but an empty one of its own. -/
theorem dropSender_channels (h : ∀ p, m.pending qid = some p → p.tx = c → m.channels c ≠ .empty) :
    (m.dropSender qid).channels c = m.channels c := by
  rw [dropSender]
  split
  · rename_i p hp
    split
    · rename_i hempty
      exact Function.update_of_ne (fun hc => h p hp hc.symm (hc ▸ hempty)) ..
    · rfl
  · rfl

theorem dropSender_full : (m.dropSender qid).channels c = .full response ↔
    m.channels c = .full response := by
  by_cases hc : ∃ p, m.pending qid = some p ∧ p.tx = c ∧ m.channels c = .empty
  · obtain ⟨p, hp, rfl, hempty⟩ := hc
    simp [dropSender, hp, hempty]
  · rw [dropSender_channels fun p hp htx hempty => hc ⟨p, hp, htx, hempty⟩]

theorem deliver_of_some (hp : m.pending response.id = some p) :
    m.deliver response = { m with
      pending := Function.update m.pending response.id none
      channels := Function.update m.channels p.tx (.full response) } := by
  rw [deliver, hp]

theorem deliver_of_none (hp : m.pending response.id = none) : m.deliver response = m := by
  rw [deliver, hp]

end UdpMuxState

/-! ### A call's step -/

namespace Stage

/-- The id a call holds, from its check to the drop of its guard. -/
def held : Stage → Option UInt16
  | assigned qid | registered qid | waiting qid | leaving qid _ => some qid
  | _ => none

def guarded : Stage → Option UInt16
  | registered qid | waiting qid | leaving qid _ => some qid
  | _ => none

def result : Stage → Result
  | leaving _ result | ended result => result
  | _ => none

/-- The call has not registered anything yet. -/
def Early : Stage → Prop
  | allocating | checking _ | assigned _ => True
  | _ => False

theorem held_of_guarded {st : Stage} {qid : UInt16} (h : st.guarded = some qid) :
    st.held = some qid := by
  cases st with
  | registered _ | waiting _ | leaving _ _ => exact h
  | _ => cases h

theorem not_early_of_guarded {st : Stage} {qid : UInt16} (h : st.guarded = some qid) : ¬ st.Early := by
  cases st with
  | registered _ | waiting _ | leaving _ _ => exact id
  | _ => cases h

theorem held_cases {st : Stage} {qid : UInt16} (h : st.held = some qid) :
    st = .assigned qid ∨ st.guarded = some qid := by
  cases st with
  | assigned _ => exact .inl (congrArg assigned (Option.some.inj h))
  | registered _ | waiting _ | leaving _ _ => exact .inr h
  | _ => cases h

end Stage

namespace Call

variable {env : Env} {c : Nat} {call : Call} {m m' : UdpMuxState} {a : Action} {st : Stage}

/-- What the steps of a call can do to its hold on an id and to the shared state. -/
inductive Moves (env : Env) (c : Nat) (call : Call) (m : UdpMuxState) :
    Action → Stage → UdpMuxState → Prop
  | count {qid : UInt16} (hstage : call.stage = .allocating) :
      Moves env c call m .allocate (.checking qid) { m with nextQid := m.nextQid + 1 }
  | retry {qid : UInt16} (hstage : call.stage = .checking qid) : Moves env c call m .check .allocating m
  | assign {qid : UInt16} (hstage : call.stage = .checking qid) (hzero : qid ≠ 0)
      (hfree : m.pending qid = none) : Moves env c call m .check (.assigned qid) m
  | refuse {qid : UInt16} {e : Error} (hstage : call.stage = .assigned qid) :
      Moves env c call m .insert (.ended (some (.error e))) m
  | insert {qid : UInt16} {h : Hickory.Message} (hstage : call.stage = .assigned qid)
      (hserialize : env.serialize call.request = some h) :
      Moves env c call m .insert (.registered qid) (m.insert qid ⟨call.upstream, c⟩)
  | stay {a : Action} {st : Stage} {qid : UInt16} (hguarded : call.stage.guarded = some qid)
      (hstays : st.guarded = some qid)
      (hresult : ∀ r, st.result = some (.ok r) → ∃ response, m.channels c = .full response ∧
        r = { response with id := call.request.id }) : Moves env c call m a st m
  | drop {qid : UInt16} {result : Result} (hstage : call.stage = .leaving qid result) :
      Moves env c call m .drop (.ended result) (m.release qid)

theorem moves_of_act (h : call.act env c m a = some (st, m')) : Moves env c call m a st m' := by
  cases a with
  | allocate =>
    simp only [act] at h
    split at h
    · rename_i hstage
      cases h
      exact .count hstage
    · cases h
  | check =>
    simp only [act] at h
    split at h
    · rename_i qid hstage
      split at h
      · rename_i hfree
        cases h
        exact .assign hstage hfree.1 hfree.2
      · cases h
        exact .retry hstage
    · cases h
  | insert =>
    simp only [act] at h
    split at h
    · rename_i qid hstage
      split at h
      · cases h
        exact .refuse hstage
      · rename_i hserialize
        cases h
        exact .insert hstage hserialize
    · cases h
  | send | sendFails | timeout =>
    simp only [act] at h
    split at h
    · rename_i qid hstage
      cases h
      exact .stay (by rw [hstage]; rfl) rfl (fun r hr => nomatch hr)
    · cases h
  | take =>
    simp only [act] at h
    split at h
    · rename_i qid hstage
      split at h
      · cases h
      · rename_i response hfull
        cases h
        exact .stay (by rw [hstage]; rfl) rfl fun r hr => ⟨response, hfull, by cases hr; rfl⟩
      · cases h
        exact .stay (by rw [hstage]; rfl) rfl (fun r hr => nomatch hr)
    · cases h
  | abort =>
    simp only [act] at h
    split at h
    · rename_i qid hstage
      cases h
      exact .stay (by rw [hstage]; rfl) rfl (fun r hr => nomatch hr)
    · rename_i qid hstage
      cases h
      exact .stay (by rw [hstage]; rfl) rfl (fun r hr => nomatch hr)
    · cases h
  | drop =>
    simp only [act] at h
    split at h
    · rename_i qid result hstage
      cases h
      exact .drop hstage
    · cases h

/-- The map gets no new entry but the one that is inserted. -/
theorem Moves.pending (h : Moves env c call m a st m') {qid : UInt16} {p : PendingQuery}
    (hp : m'.pending qid = some p) : m.pending qid = some p ∨
      a = .insert ∧ call.stage = .assigned qid ∧ p = ⟨call.upstream, c⟩ := by
  cases h with
  | @insert qid' wire hstage hserialize =>
    rw [UdpMuxState.insert_pending] at hp
    by_cases hqid : qid = qid'
    · subst hqid
      rw [Function.update_self] at hp
      exact .inr ⟨rfl, hstage, (Option.some.inj hp).symm⟩
    · rw [Function.update_of_ne hqid] at hp
      exact .inl hp
  | @drop qid' result hstage =>
    rw [UdpMuxState.release_pending] at hp
    by_cases hqid : qid = qid'
    · rw [hqid, Function.update_self] at hp
      cases hp
    · rw [Function.update_of_ne hqid] at hp
      exact .inl hp
  | _ => exact .inl hp

end Call

/-! ### A step of the system -/

variable {env : Env} {produces : String → Hickory.Message → Message → Bool} {s s' : System} {e : Event}

/-- The steps of the system, by what they touch. -/
inductive Steps (env : Env) (produces : String → Hickory.Message → Message → Bool) (s : System) :
    Event → System → Prop
  | call {c : Nat} {request : Message} {upstream : String} (hnew : s.calls c = none) :
      Steps env produces s (.call c request upstream)
        { s with calls := Function.update s.calls c (some ⟨request, upstream, .allocating⟩) }
  | act {c : Nat} {a : Action} {call : Call} {st : Stage} {m : UdpMuxState} (hcall : s.calls c = some call)
      (hact : call.act env c s.mux a = some (st, m)) :
      Steps env produces s (.act c a)
        { s with
          mux := m
          calls := Function.update s.calls c (some { call with stage := st })
          sent := s.sent ++ call.emits env c a }
  | answer {k : Nat} {response : Message} {q : Query} (hq : s.sent[k]? = some q)
      (hproduces : produces q.peer q.wire response) :
      Steps env produces s (.answer k response)
        { s with
          answered := s.answered ++ [(q.call, response)]
          network := s.network ++ [⟨q.peer, response, some q.call⟩] }
  | arrive {source : String} {response : Message} :
      Steps env produces s (.arrive source response)
        { s with network := s.network ++ [⟨source, response, none⟩] }
  | lose {k : Nat} : Steps env produces s (.lose k) { s with network := s.network.eraseIdx k }
  | receive {k : Nat} {d : Datagram} (hd : d ∈ s.network) :
      Steps env produces s (.receive k)
        { s with network := s.network.eraseIdx k, reader := .looking d }
  | look {d : Datagram} (hreader : s.reader = .looking d) :
      Steps env produces s .look { s with reader := s.mux.look d }
  | remove {d : Datagram} (hreader : s.reader = .removing d) :
      Steps env produces s .remove { s with mux := s.mux.deliver d.response, reader := .receiving }

theorem steps_of_step (h : step env produces s e = some s') : Steps env produces s e s' := by
  cases e with
  | call c request upstream =>
    simp only [step] at h
    split at h
    · rename_i hnew
      cases h
      exact .call hnew
    · cases h
  | act c a =>
    simp only [step] at h
    split at h
    · cases h
    · rename_i call hcall
      obtain ⟨⟨st, m⟩, hact, rfl⟩ := Option.map_eq_some_iff.mp h
      exact .act hcall hact
  | answer k response =>
    simp only [step] at h
    split at h
    · cases h
    · rename_i q hq
      split at h
      · rename_i hproduces
        cases h
        exact .answer hq hproduces
      · cases h
  | arrive source response =>
    cases h
    exact .arrive
  | lose k =>
    cases h
    exact .lose
  | receive k =>
    simp only [step] at h
    split at h
    · rename_i d hreader hd
      cases h
      exact .receive (List.mem_of_getElem? hd)
    · cases h
  | look =>
    simp only [step] at h
    split at h
    · rename_i d hreader
      cases h
      exact .look hreader
    · cases h
  | remove =>
    simp only [step] at h
    split at h
    · rename_i d hreader
      cases h
      exact .remove hreader
    · cases h

/-! ### Queries that pass by -/

/-- An upstream that answers under the id and with the question it was asked. -/
def echoes (env : Env) (_ : String) (wire : Hickory.Message) (response : Message) : Bool :=
  response.id == wire.id &&
    response.questions.mapM (convertQuestion env.fromUtf8) == some wire.queries

section

variable {request : Message} {upstream : String} {h : Hickory.Message} {c : Nat} {qid : UInt16}

def register (c : Nat) (request : Message) (upstream : String) : List Event :=
  [.call c request upstream, .act c .allocate, .act c .check, .act c .insert]

theorem run_register (hserialize : env.serialize request = some h) (hnew : s.calls c = none)
    (hqid : s.mux.nextQid = qid) (hzero : qid ≠ 0) (hfree : s.mux.pending qid = none) :
    (machine env produces).run s (register c request upstream) = some { s with
      mux := { s.mux with
        pending := Function.update s.mux.pending qid (some ⟨upstream, c⟩)
        nextQid := qid + 1 }
      calls := Function.update s.calls c (some ⟨request, upstream, .registered qid⟩) } := by
  subst hqid
  simp [register, Machine.run, machine, step, Call.act, Call.emits, UdpMuxState.insert,
    UdpMuxState.dropSender, hnew, hzero, hfree, hserialize, Function.update_idem]

/-- A query that gets an id, cannot be sent and gives the id back. -/
def passing (request : Message) (upstream : String) (e : Error) (c : Nat) : List Event :=
  register c request upstream ++ [.act c (.sendFails e), .act c .drop]

variable (produces upstream) in
theorem run_passing (e : Error) (hserialize : env.serialize request = some h) (hnew : s.calls c = none)
    (hqid : s.mux.nextQid = qid) (hzero : qid ≠ 0) (hfree : s.mux.pending qid = none)
    (hempty : s.mux.channels c = .empty) :
    (machine env produces).run s (passing request upstream e c) = some { s with
      mux := { s.mux with nextQid := qid + 1, channels := Function.update s.mux.channels c .closed }
      calls := Function.update s.calls c (some ⟨request, upstream, .ended (some (.error e))⟩) } := by
  have hpending : Function.update s.mux.pending qid none = s.mux.pending := by
    rw [← hfree, Function.update_eq_self]
  rw [passing, Machine.run_append_of_run (run_register hserialize hnew hqid hzero hfree)]
  simp [Machine.run, machine, step, Call.act, Call.emits, UdpMuxState.release,
    UdpMuxState.dropSender, hempty, hpending, Function.update_idem]

def lap (request : Message) (upstream : String) (e : Error) (c k : Nat) : List Event :=
  (List.range k).flatMap fun j => passing request upstream e (c + j)

variable (produces upstream) in
/-- Queries that pass by move the counter, and nothing else that is not theirs. -/
theorem run_lap (e : Error) (hserialize : env.serialize request = some h) {n : Nat}
    (hqid : s.mux.nextQid = UInt16.ofNat n) (hn : 0 < n)
    (hnew : ∀ c' ≥ c, s.calls c' = none ∧ s.mux.channels c' = .empty) (k : Nat)
    (hk : n + k ≤ 2 ^ 16) (hfree : ∀ m ≥ n, m < 2 ^ 16 → s.mux.pending (UInt16.ofNat m) = none) :
    ∃ t, (machine env produces).run s (lap request upstream e c k) = some t ∧
      t.mux.pending = s.mux.pending ∧ t.mux.nextQid = UInt16.ofNat (n + k) ∧
      (∀ c' < c, t.calls c' = s.calls c' ∧ t.mux.channels c' = s.mux.channels c') ∧
      (∀ c' ≥ c + k, t.calls c' = none ∧ t.mux.channels c' = .empty) ∧
      t.sent = s.sent ∧ t.answered = s.answered ∧ t.network = s.network ∧ t.reader = s.reader := by
  induction k with
  | zero => exact ⟨s, rfl, rfl, hqid, fun _ _ => ⟨rfl, rfl⟩, hnew, rfl, rfl, rfl, rfl⟩
  | succ k ih =>
    obtain ⟨t, hrun, hpending, hnext, hbelow, habove, hrest⟩ := ih (by omega)
    have hzero : UInt16.ofNat (n + k) ≠ 0 := by
      intro hzero
      have htoNat : (n + k) % 2 ^ 16 = 0 := congrArg UInt16.toNat hzero
      omega
    have hpass := run_passing produces upstream e hserialize
      (habove (c + k) (Nat.le_refl _)).1 hnext hzero
      (by rw [hpending]; exact hfree (n + k) (by omega) (by omega)) (habove (c + k) (Nat.le_refl _)).2
    refine ⟨{ t with
      mux := { t.mux with
        nextQid := UInt16.ofNat (n + k) + 1
        channels := Function.update t.mux.channels (c + k) .closed }
      calls := Function.update t.calls (c + k) (some ⟨request, upstream, .ended (some (.error e))⟩) },
      ?_, hpending, ?_, ?_, ?_, hrest⟩
    · rw [lap, List.range_succ, List.flatMap_append, ← lap, Machine.run_append_of_run hrun,
        List.flatMap_singleton]
      exact hpass
    · rw [← Nat.add_assoc, UInt16.ofNat_add (n + k)]
      rfl
    · intro c' hc'
      dsimp only
      rw [Function.update_of_ne (by omega), Function.update_of_ne (by omega)]
      exact hbelow c' hc'
    · intro c' hc'
      dsimp only
      rw [Function.update_of_ne (by omega), Function.update_of_ne (by omega)]
      exact habove c' (by omega)

end

end UdpMux

end Lazydns
