import Lazydns.Plugin.MuxRules
import Lazydns.Server.Service

/-!
# Who owns an id of the multiplexer

A query should be the only live one with its id, and its entry should stay in the map until its response comes or its guard removes it. The allocator looks for the id in the map, and the guard removes whatever is under it. So everything rests on the map showing every live query whose id is looked for. It does not show a query between its check and its insert, nor one that has got its response and not dropped its guard yet; when the counter comes round to the id of such a query, the id gets a second owner.
-/

namespace Lazydns

open Dns

namespace UdpMux

/-! ### The invariant -/

/-- The map shows exactly the queries with a guard whose channel has not been used, and no two queries hold the same id. -/
structure Owned (m : UdpMuxState) (calls : Nat → Option Call) : Prop where
  listed : ∀ qid p, m.pending qid = some p → ∃ call, calls p.tx = some call ∧
    call.stage.guarded = some qid ∧ m.channels p.tx = .empty
  fresh : ∀ c, (∀ call, calls c = some call → call.stage.Early) → m.channels c = .empty
  unique : ∀ c c' call call' qid, calls c = some call → calls c' = some call' →
    call.stage.held = some qid → call'.stage.held = some qid → c = c'
  entry : ∀ c call qid, calls c = some call → call.stage.guarded = some qid →
    m.channels c = .empty → ∃ p, m.pending qid = some p ∧ p.tx = c

/-- A query that holds an id without an entry in the map: it has not inserted it yet, or its channel has been used. -/
def Hidden (s : System) (c : Nat) (qid : UInt16) : Prop :=
  ∃ call, s.calls c = some call ∧ (call.stage = .assigned qid ∨
    call.stage.guarded = some qid ∧ s.mux.channels c ≠ .empty)

/-- A query that takes an id finds no hidden holder of it. -/
def NoneHidden (s : System) (e : Event) (_ : System) : Prop :=
  ∀ c call qid, e = .act c .check → s.calls c = some call → call.stage = .checking qid → qid ≠ 0 →
    s.mux.pending qid = none → ∀ c', ¬ Hidden s c' qid

theorem owned_new : Owned UdpMuxState.new fun _ => none where
  listed := fun _ _ h => nomatch h
  fresh := fun _ _ => rfl
  unique := fun _ _ _ _ _ h => nomatch h
  entry := fun _ _ _ h => nomatch h

section

variable {env : Env} {m m' : UdpMuxState} {calls : Nat → Option Call} {c : Nat} {call : Call} {st : Stage}

theorem update_calls_cases {c' : Nat} {call' x : Call}
    (h : Function.update calls c (some x) c' = some call') :
    c' = c ∧ call' = x ∨ c' ≠ c ∧ calls c' = some call' := by
  by_cases hc : c' = c
  · subst hc
    rw [Function.update_self] at h
    exact .inl ⟨rfl, (Option.some.inj h).symm⟩
  · rw [Function.update_of_ne hc] at h
    exact .inr ⟨hc, h⟩

theorem Owned.start (h : Owned m calls) (hnew : calls c = none) (request : Message) (upstream : String) :
    Owned m (Function.update calls c (some ⟨request, upstream, .allocating⟩)) where
  listed := by
    intro qid p hp
    obtain ⟨call, hcall, hrest⟩ := h.listed qid p hp
    refine ⟨call, ?_, hrest⟩
    rwa [Function.update_of_ne]
    rintro rfl
    rw [hnew] at hcall
    cases hcall
  fresh := by
    intro c' hearly
    apply h.fresh c'
    intro call hcall
    apply hearly
    rwa [Function.update_of_ne]
    rintro rfl
    rw [hnew] at hcall
    cases hcall
  unique := by
    intro a b call call' qid ha hb hheld hheld'
    rcases update_calls_cases ha with ⟨rfl, rfl⟩ | ⟨-, ha'⟩
    · cases hheld
    · rcases update_calls_cases hb with ⟨rfl, rfl⟩ | ⟨-, hb'⟩
      · cases hheld'
      · exact h.unique a b call call' qid ha' hb' hheld hheld'
  entry := by
    intro c' call' qid hcall hguarded hempty
    rcases update_calls_cases hcall with ⟨rfl, rfl⟩ | ⟨-, hcall⟩
    · cases hguarded
    · exact h.entry c' call' qid hcall hguarded hempty

/-- A step of a call that leaves its guard and the map alone. -/
theorem Owned.restage (h : Owned m calls) (hcall : calls c = some call)
    (hpending : m'.pending = m.pending) (hchannels : m'.channels = m.channels)
    (hguarded : st.guarded = call.stage.guarded) (hearly : st.Early → call.stage.Early)
    (hheld : ∀ qid c' call', st.held = some qid → calls c' = some call' →
      call'.stage.held = some qid → c' = c) :
    Owned m' (Function.update calls c (some { call with stage := st })) where
  listed := by
    intro qid p hp
    rw [hpending] at hp
    rw [hchannels]
    obtain ⟨call', hcall', hguarded', hempty⟩ := h.listed qid p hp
    by_cases htx : p.tx = c
    · rw [htx, hcall] at hcall'
      cases hcall'
      exact ⟨_, by rw [htx, Function.update_self], hguarded.trans hguarded', hempty⟩
    · exact ⟨call', by rwa [Function.update_of_ne htx], hguarded', hempty⟩
  fresh := by
    intro c' hearly'
    rw [hchannels]
    apply h.fresh c'
    intro call' hcall'
    by_cases hc : c' = c
    · subst hc
      rw [hcall] at hcall'
      cases hcall'
      exact hearly (hearly' _ (Function.update_self ..))
    · exact hearly' call' (by rwa [Function.update_of_ne hc])
  unique := by
    intro a b call₁ call₂ qid ha hb hheld₁ hheld₂
    rcases update_calls_cases ha with ⟨rfl, rfl⟩ | ⟨-, ha'⟩
    · rcases update_calls_cases hb with ⟨rfl, rfl⟩ | ⟨-, hb'⟩
      · rfl
      · exact (hheld qid b call₂ hheld₁ hb' hheld₂).symm
    · rcases update_calls_cases hb with ⟨rfl, rfl⟩ | ⟨-, hb'⟩
      · exact hheld qid a call₁ hheld₂ ha' hheld₁
      · exact h.unique a b call₁ call₂ qid ha' hb' hheld₁ hheld₂
  entry := by
    intro c' call' qid hcall' hguarded' hempty
    rw [hpending]
    rw [hchannels] at hempty
    rcases update_calls_cases hcall' with ⟨rfl, rfl⟩ | ⟨-, hcall'⟩
    · exact h.entry c' call qid hcall (hguarded.symm.trans hguarded') hempty
    · exact h.entry c' call' qid hcall' hguarded' hempty

/-- No entry is under an id that a query has been assigned and not registered. -/
theorem Owned.pending_assigned (h : Owned m calls) {qid : UInt16} (hcall : calls c = some call)
    (hstage : call.stage = .assigned qid) : m.pending qid = none := by
  cases hp : m.pending qid with
  | none => rfl
  | some p =>
    obtain ⟨call', hcall', hguarded, -⟩ := h.listed qid p hp
    have hc := h.unique p.tx c call' call qid hcall' hcall (Stage.held_of_guarded hguarded)
      (by rw [hstage]; rfl)
    rw [hc, hcall] at hcall'
    cases hcall'
    rw [hstage] at hguarded
    cases hguarded

theorem Owned.insert (h : Owned m calls) {qid : UInt16} (hcall : calls c = some call)
    (hstage : call.stage = .assigned qid) :
    Owned (m.insert qid ⟨call.upstream, c⟩)
      (Function.update calls c (some { call with stage := .registered qid })) := by
  have hfree := h.pending_assigned hcall hstage
  have hchannels : (m.insert qid ⟨call.upstream, c⟩).channels = m.channels := by
    rw [UdpMuxState.insert_channels, UdpMuxState.dropSender, hfree]
  have hheld : call.stage.held = some qid := by rw [hstage]; rfl
  refine ⟨?_, ?_, ?_, ?_⟩
  · intro q p hp
    rw [UdpMuxState.insert_pending] at hp
    rw [hchannels]
    by_cases hq : q = qid
    · subst hq
      rw [Function.update_self] at hp
      cases hp
      exact ⟨_, Function.update_self .., rfl, h.fresh c fun call' hcall' => by
        rw [hcall] at hcall'
        cases hcall'
        rw [hstage]
        trivial⟩
    · rw [Function.update_of_ne hq] at hp
      obtain ⟨call', hcall', hguarded, hempty⟩ := h.listed q p hp
      refine ⟨call', ?_, hguarded, hempty⟩
      rwa [Function.update_of_ne]
      intro htx
      rw [htx, hcall] at hcall'
      cases hcall'
      rw [hstage] at hguarded
      cases hguarded
  · intro c' hearly
    rw [hchannels]
    apply h.fresh c'
    intro call' hcall'
    apply hearly
    rwa [Function.update_of_ne]
    rintro rfl
    exact (hearly _ (Function.update_self ..)).elim
  · intro a b call₁ call₂ q ha hb hheld₁ hheld₂
    rcases update_calls_cases ha with ⟨rfl, rfl⟩ | ⟨-, ha'⟩
    · rcases update_calls_cases hb with ⟨rfl, rfl⟩ | ⟨-, hb'⟩
      · rfl
      · exact h.unique a b call call₂ q hcall hb' (hheld.trans hheld₁) hheld₂
    · rcases update_calls_cases hb with ⟨rfl, rfl⟩ | ⟨-, hb'⟩
      · exact h.unique a b call₁ call q ha' hcall hheld₁ (hheld.trans hheld₂)
      · exact h.unique a b call₁ call₂ q ha' hb' hheld₁ hheld₂
  · intro c' call' q hcall' hguarded hempty
    rw [UdpMuxState.insert_pending]
    rw [hchannels] at hempty
    rcases update_calls_cases hcall' with ⟨rfl, rfl⟩ | ⟨hne, hcall'⟩
    · cases hguarded
      exact ⟨_, Function.update_self .., rfl⟩
    · obtain ⟨p, hp, htx⟩ := h.entry c' call' q hcall' hguarded hempty
      refine ⟨p, ?_, htx⟩
      rwa [Function.update_of_ne]
      rintro rfl
      rw [hfree] at hp
      cases hp

/-- The entry under the id of a guard is the guard's own. -/
theorem Owned.tx_of_guarded (h : Owned m calls) {qid : UInt16} {p : PendingQuery}
    (hcall : calls c = some call) (hguarded : call.stage.guarded = some qid)
    (hp : m.pending qid = some p) : p.tx = c := by
  obtain ⟨call', hcall', hguarded', -⟩ := h.listed qid p hp
  exact h.unique p.tx c call' call qid hcall' hcall (Stage.held_of_guarded hguarded')
    (Stage.held_of_guarded hguarded)

theorem Owned.drop (h : Owned m calls) {qid : UInt16} {result : Result} (hcall : calls c = some call)
    (hstage : call.stage = .leaving qid result) :
    Owned (m.release qid) (Function.update calls c (some { call with stage := .ended result })) := by
  have hguarded : call.stage.guarded = some qid := by rw [hstage]; rfl
  have hchannels : ∀ c' ≠ c, (m.release qid).channels c' = m.channels c' := by
    intro c' hc
    rw [UdpMuxState.release_channels]
    exact UdpMuxState.dropSender_channels fun p hp htx =>
      absurd (htx.symm.trans (h.tx_of_guarded hcall hguarded hp)) hc
  refine ⟨?_, ?_, ?_, ?_⟩
  · intro q p hp
    rw [UdpMuxState.release_pending] at hp
    by_cases hq : q = qid
    · subst hq
      rw [Function.update_self] at hp
      cases hp
    · rw [Function.update_of_ne hq] at hp
      obtain ⟨call', hcall', hguarded', hempty⟩ := h.listed q p hp
      have hc : p.tx ≠ c := by
        intro htx
        rw [htx, hcall] at hcall'
        cases hcall'
        exact hq (Option.some.inj (hguarded'.symm.trans hguarded))
      exact ⟨call', by rwa [Function.update_of_ne hc], hguarded', by rwa [hchannels _ hc]⟩
  · intro c' hearly
    have hc : c' ≠ c := by
      rintro rfl
      exact hearly _ (Function.update_self ..)
    rw [hchannels c' hc]
    exact h.fresh c' fun call' hcall' => hearly call' (by rwa [Function.update_of_ne hc])
  · intro a b call₁ call₂ q ha hb hheld₁ hheld₂
    rcases update_calls_cases ha with ⟨rfl, rfl⟩ | ⟨-, ha'⟩
    · cases hheld₁
    · rcases update_calls_cases hb with ⟨rfl, rfl⟩ | ⟨-, hb'⟩
      · cases hheld₂
      · exact h.unique a b call₁ call₂ q ha' hb' hheld₁ hheld₂
  · intro c' call' q hcall' hguarded' hempty
    rcases update_calls_cases hcall' with ⟨rfl, rfl⟩ | ⟨hc, hcall'⟩
    · cases hguarded'
    · rw [hchannels c' hc] at hempty
      obtain ⟨p, hp, htx⟩ := h.entry c' call' q hcall' hguarded' hempty
      refine ⟨p, ?_, htx⟩
      rw [UdpMuxState.release_pending, Function.update_of_ne]
      · exact hp
      · rintro rfl
        exact hc (htx.symm.trans (h.tx_of_guarded hcall hguarded hp))

theorem Owned.deliver (h : Owned m calls) (response : Message) : Owned (m.deliver response) calls := by
  cases hp : m.pending response.id with
  | none => rwa [UdpMuxState.deliver_of_none hp]
  | some p =>
    obtain ⟨call, hcall, hguarded, -⟩ := h.listed response.id p hp
    rw [UdpMuxState.deliver_of_some hp]
    refine ⟨?_, ?_, h.unique, ?_⟩
    · intro q p' hp'
      dsimp only at hp' ⊢
      by_cases hq : q = response.id
      · subst hq
        rw [Function.update_self] at hp'
        cases hp'
      · rw [Function.update_of_ne hq] at hp'
        obtain ⟨call', hcall', hguarded', hempty⟩ := h.listed q p' hp'
        refine ⟨call', hcall', hguarded', ?_⟩
        rwa [Function.update_of_ne]
        intro htx
        rw [htx, hcall] at hcall'
        cases hcall'
        exact hq (Option.some.inj (hguarded'.symm.trans hguarded))
    · intro c' hearly
      dsimp only
      rw [Function.update_of_ne]
      · exact h.fresh c' hearly
      · rintro rfl
        exact Stage.not_early_of_guarded hguarded (hearly call hcall)
    · intro c' call' q hcall' hguarded' hempty
      dsimp only at hempty ⊢
      by_cases hc : c' = p.tx
      · subst hc
        rw [Function.update_self] at hempty
        cases hempty
      · rw [Function.update_of_ne hc] at hempty
        obtain ⟨p', hp', htx⟩ := h.entry c' call' q hcall' hguarded' hempty
        refine ⟨p', ?_, htx⟩
        rwa [Function.update_of_ne]
        rintro rfl
        rw [hp] at hp'
        cases hp'
        exact hc htx.symm

/-- A query that finds an id free, none hidden, is its only holder. -/
theorem Owned.alone (h : Owned m calls) {qid : UInt16} (hfree : m.pending qid = none)
    (hhidden : ∀ c' call', calls c' = some call' → ¬ (call'.stage = .assigned qid ∨
      call'.stage.guarded = some qid ∧ m.channels c' ≠ .empty)) {c' : Nat} {call' : Call}
    (hcall' : calls c' = some call') : call'.stage.held ≠ some qid := by
  intro hheld
  rcases Stage.held_cases hheld with hassigned | hguarded
  · exact hhidden c' call' hcall' (.inl hassigned)
  · refine hhidden c' call' hcall' (.inr ⟨hguarded, fun hempty => ?_⟩)
    obtain ⟨p, hp, -⟩ := h.entry c' call' qid hcall' hguarded hempty
    rw [hfree] at hp
    cases hp

end

/-! ### The law -/

/-- What a step leaves: no two live queries hold the same id; an entry is gone only because its own query's guard removed it or its own query's channel has got the response; and the map is empty if all queries are over. -/
structure Ownership (s : System) (e : Event) (s' : System) : Prop where
  unique : ∀ c c' call call' qid, s'.calls c = some call → s'.calls c' = some call' →
    call.stage.held = some qid → call'.stage.held = some qid → c = c'
  removed : ∀ qid p, s.mux.pending qid = some p → s'.mux.pending qid ≠ some p →
    e = .act p.tx .drop ∨
      e = .remove ∧ ∃ d, s.reader = .removing d ∧ s'.mux.channels p.tx = .full d.response
  cleared : (∀ c call, s'.calls c = some call → ∃ result, call.stage = .ended result) →
    ∀ qid, s'.mux.pending qid = none

variable {env : Env} {produces : String → Hickory.Message → Message → Bool} {s s' : System} {e : Event}

theorem Owned.cleared {m : UdpMuxState} {calls : Nat → Option Call} (h : Owned m calls)
    (hended : ∀ c call, calls c = some call → ∃ result, call.stage = .ended result) (qid : UInt16) :
    m.pending qid = none := by
  cases hp : m.pending qid with
  | none => rfl
  | some p =>
    obtain ⟨call, hcall, hguarded, -⟩ := h.listed qid p hp
    obtain ⟨result, hstage⟩ := hended p.tx call hcall
    rw [hstage] at hguarded
    cases hguarded

/-- A step of a call keeps the invariant. -/
theorem Owned.moves {m m' : UdpMuxState} {calls : Nat → Option Call} {c : Nat} {call : Call} {a : Action}
    {st : Stage} (h : Owned m calls) (hcall : calls c = some call) (hmoves : call.Moves env c m a st m')
    (halone : ∀ qid c' call', a = .check → call.stage = .checking qid → qid ≠ 0 →
      m.pending qid = none → calls c' = some call' → call'.stage.held ≠ some qid) :
    Owned m' (Function.update calls c (some { call with stage := st })) := by
  cases hmoves with
  | count hstage =>
    exact h.restage hcall rfl rfl (by rw [hstage]; rfl) (fun _ => by rw [hstage]; trivial)
      fun _ _ _ hq => nomatch hq
  | retry hstage =>
    exact h.restage hcall rfl rfl (by rw [hstage]; rfl) (fun _ => by rw [hstage]; trivial)
      fun _ _ _ hq => nomatch hq
  | assign hstage hzero hfree =>
    refine h.restage hcall rfl rfl (by rw [hstage]; rfl) (fun _ => by rw [hstage]; trivial) ?_
    intro q c' call' hq hcall' hheld
    cases hq
    exact absurd hheld (halone _ c' call' rfl hstage hzero hfree hcall')
  | refuse hstage =>
    exact h.restage hcall rfl rfl (by rw [hstage]; rfl) (fun hearly => hearly.elim)
      fun _ _ _ hq => nomatch hq
  | insert hstage hserialize => exact h.insert hcall hstage
  | stay hguarded hstays hresult =>
    refine h.restage hcall rfl rfl (hstays.trans hguarded.symm)
      (fun hearly => absurd hearly (Stage.not_early_of_guarded hstays)) ?_
    intro q c' call' hq hcall' hheld
    rw [Stage.held_of_guarded hstays] at hq
    cases hq
    exact h.unique c' c call' call _ hcall' hcall hheld (Stage.held_of_guarded hguarded)
  | drop hstage => exact h.drop hcall hstage

/-- A step of a call removes no entry but its own, and that when its guard is dropped. -/
theorem Owned.removed_of_moves {m m' : UdpMuxState} {calls : Nat → Option Call} {c : Nat} {call : Call}
    {a : Action} {st : Stage} {qid : UInt16} {p : PendingQuery} (h : Owned m calls)
    (hcall : calls c = some call) (hmoves : call.Moves env c m a st m')
    (hp : m.pending qid = some p) (hgone : m'.pending qid ≠ some p) : a = .drop ∧ p.tx = c := by
  cases hmoves with
  | @insert q _ hstage hserialize =>
    rw [UdpMuxState.insert_pending] at hgone
    by_cases hq : qid = q
    · subst hq
      rw [h.pending_assigned hcall hstage] at hp
      cases hp
    · rw [Function.update_of_ne hq] at hgone
      exact absurd hp hgone
  | @drop q result hstage =>
    rw [UdpMuxState.release_pending] at hgone
    by_cases hq : qid = q
    · subst hq
      exact ⟨rfl, h.tx_of_guarded hcall (by rw [hstage]; rfl) hp⟩
    · rw [Function.update_of_ne hq] at hgone
      exact absurd hp hgone
  | _ => exact absurd hp hgone

theorem step_owned (h : Owned s.mux s.calls) (hnone : NoneHidden s e s')
    (hstep : step env produces s e = some s') : Owned s'.mux s'.calls ∧ Ownership s e s' := by
  suffices hsuffices : Owned s'.mux s'.calls ∧ ∀ qid p, s.mux.pending qid = some p →
      s'.mux.pending qid ≠ some p → e = .act p.tx .drop ∨
        e = .remove ∧ ∃ d, s.reader = .removing d ∧ s'.mux.channels p.tx = .full d.response from
    ⟨hsuffices.1, hsuffices.1.unique, hsuffices.2, hsuffices.1.cleared⟩
  cases steps_of_step hstep with
  | call hnew => exact ⟨h.start hnew _ _, fun _ _ hp hgone => absurd hp hgone⟩
  | @act c a call st m hcall hact =>
    have hmoves := Call.moves_of_act hact
    refine ⟨h.moves hcall hmoves ?_, fun qid p hp hgone => ?_⟩
    · rintro qid c' call' rfl hstage hzero hfree hcall'
      exact h.alone hfree (fun c' call' hcall' hhidden =>
        hnone c call qid rfl hcall hstage hzero hfree c' ⟨call', hcall', hhidden⟩) hcall'
    · obtain ⟨rfl, rfl⟩ := h.removed_of_moves hcall hmoves hp hgone
      exact .inl rfl
  | @remove d hreader =>
    refine ⟨h.deliver d.response, fun qid p hp hgone => .inr ⟨rfl, d, hreader, ?_⟩⟩
    dsimp only at hgone ⊢
    cases hfound : s.mux.pending d.response.id with
    | none =>
      rw [UdpMuxState.deliver_of_none hfound] at hgone
      exact absurd hp hgone
    | some p' =>
      rw [UdpMuxState.deliver_of_some hfound] at hgone ⊢
      dsimp only at hgone ⊢
      by_cases hq : qid = d.response.id
      · subst hq
        rw [hfound] at hp
        cases hp
        exact Function.update_self ..
      · rw [Function.update_of_ne hq] at hgone
        exact absurd hp hgone
  | _ => exact ⟨h, fun _ _ hp hgone => absurd hp hgone⟩

/-- A step that keeps the ids apart has taken none that had a hidden holder. -/
theorem noneHidden_of_ownership (hstep : step env produces s e = some s') (h : Ownership s e s') :
    NoneHidden s e s' := by
  rintro c call qid rfl hcall hstage hzero hfree c' ⟨call', hcall', hhidden⟩
  simp only [step, hcall, Call.act, hstage, hzero, hfree, ne_eq, not_false_eq_true, and_self, if_true,
    Option.map_some, Option.some.injEq] at hstep
  subst hstep
  have hheld : call'.stage.held = some qid := by
    rcases hhidden with hassigned | ⟨hguarded, -⟩
    · rw [hassigned]
      rfl
    · exact Stage.held_of_guarded hguarded
  have hc : c' ≠ c := by
    rintro rfl
    rw [hcall] at hcall'
    cases hcall'
    rw [hstage] at hheld
    cases hheld
  refine hc (h.unique c' c call' _ qid ?_ (Function.update_self ..) hheld rfl)
  dsimp only
  rwa [Function.update_of_ne hc]

/-- In every run: all steps keep the ownership of ids exactly if no query takes one that has a hidden holder. -/
theorem ownership_iff (env : Env) (produces : String → Hickory.Message → Message → Bool)
    (events : List Event) :
    (machine env produces).Each Ownership .new events ↔
      (machine env produces).Each NoneHidden .new events := by
  constructor
  · exact fun h => Machine.each_of_keeps (I := fun _ => True)
      (fun s e s' _ hC hs => ⟨trivial, noneHidden_of_ownership hs hC⟩) trivial h
  · exact Machine.each_of_keeps (I := fun s => Owned s.mux s.calls)
      (fun s e s' h hC hs => step_owned h hC hs) owned_new

/-! ### A full lap of the counter -/

section

variable {request : Message} {upstream : String} {h : Hickory.Message} {response : Message}

/-- The first query of all has got its response, and its task has not gone on yet. -/
def answered (request : Message) (upstream : String) (h : Hickory.Message) (response : Message) :
    System where
  mux := {
    pending := fun _ => none
    nextQid := 2
    channels := Function.update (fun _ => .empty) 0 (.full response) }
  calls := Function.update (fun _ => none) 0 (some ⟨request, upstream, .waiting 1⟩)
  sent := [⟨0, upstream, { h with id := 1 }⟩]
  answered := [(0, response)]
  network := []
  reader := .receiving

theorem answered_of_ne {c : Nat} (hc : c ≠ 0) : (answered request upstream h response).calls c = none ∧
    (answered request upstream h response).mux.channels c = .empty := by
  simp [answered, hc]

theorem run_answered (hserialize : env.serialize request = some h) (hid : response.id = 1)
    (hproduces : produces upstream { h with id := 1 } response = true) :
    (machine env produces).run .new (register 0 request upstream ++
        [.act 0 .send, .answer 0 response, .receive 0, .look, .remove]) =
      some (answered request upstream h response) := by
  rw [Machine.run_append_of_run (run_register hserialize rfl rfl (by decide) rfl)]
  simp [Machine.run, machine, step, Call.act, Call.emits, hserialize, hproduces, hid, System.new,
    UdpMuxState.new, UdpMuxState.look, UdpMuxState.deliver, answered]

/-- The counter goes once round, and another query asks for the id of the first one. -/
def lapped (request : Message) (upstream : String) (response : Message) (e : Error) : List Event :=
  register 0 request upstream ++ [.act 0 .send, .answer 0 response, .receive 0, .look, .remove] ++
    (lap request upstream e 1 65534 ++ [.call 65535 request upstream, .act 65535 .allocate,
      .act 65535 .check, .act 65535 .allocate])

/-- Before the check of that query, the first one holds the id 1 and the map does not show it. -/
theorem run_lapped (e : Error) (hserialize : env.serialize request = some h) (hid : response.id = 1)
    (hproduces : produces upstream { h with id := 1 } response = true) :
    ∃ t, (machine env produces).run .new (lapped request upstream response e) = some t ∧
      t.calls 0 = some ⟨request, upstream, .waiting 1⟩ ∧
      t.calls 65535 = some ⟨request, upstream, .checking 1⟩ ∧ t.mux.pending = fun _ => none := by
  have hanswered := run_answered hserialize hid hproduces
  obtain ⟨t, hlap, hpending, hnext, hbelow, habove, -⟩ := run_lap produces upstream
    (c := 1) (n := 2) (s := answered request upstream h response)
    e hserialize rfl (by decide)
    (fun c' hc' => answered_of_ne (Nat.pos_iff_ne_zero.mp hc'))
    65534 le_rfl (fun _ _ _ => rfl)
  have hnone := (habove 65535 le_rfl).1
  have hfirst := (hbelow 0 Nat.zero_lt_one).1
  have hzero : t.mux.nextQid = 0 := hnext
  refine ⟨{ t with
    mux := { t.mux with nextQid := 2 }
    calls := Function.update t.calls 65535 (some ⟨request, upstream, .checking 1⟩) }, ?_, ?_, ?_, ?_⟩
  · rw [lapped, Machine.run_append_of_run hanswered, Machine.run_append_of_run hlap]
    simp [Machine.run, machine, step, Call.act, Call.emits, hnone, hzero, Function.update_idem]
  · simpa [answered] using hfirst
  · simp
  · exact hpending

end

/-- After a lap of the counter between a query's response and the drop of its guard, two live queries hold the id 1. -/
theorem not_ownership_lapped :
    let env := Env.answering (.error (.other "down"))
    let events := lapped (.ask 7 "a." .A) "192.0.2.1:53" { Message.ask 1 "a." .A with qr := true }
      (.other "Network is unreachable") ++ [.act 65535 .check]
    ((machine env (echoes env)).run .new events).isSome ∧
      ¬ (machine env (echoes env)).Each Ownership .new events := by
  intro env events
  obtain ⟨h, hserialize, hechoes⟩ : ∃ h, env.serialize (.ask 7 "a." .A) = some h ∧
      echoes env "192.0.2.1:53" { h with id := 1 } { Message.ask 1 "a." .A with qr := true } = true :=
    ⟨_, rfl, by decide⟩
  obtain ⟨t, hrun, hfirst, hlast, hpending⟩ := run_lapped (.other "Network is unreachable")
    hserialize rfl hechoes
  have hstep : (machine env (echoes env)).step t (.act 65535 .check) =
      some { t with
        calls := Function.update t.calls 65535
          (some ⟨.ask 7 "a." .A, "192.0.2.1:53", .assigned 1⟩) } := by
    simp [machine, step, Call.act, Call.emits, hlast, hpending]
  refine ⟨?_, fun hlaw => ?_⟩
  · rw [Machine.run_append_of_run hrun, Machine.run_cons_of_step hstep]
    rfl
  · have hunique := (hlaw.last hrun hstep).unique 0 65535 ⟨.ask 7 "a." .A, "192.0.2.1:53", .waiting 1⟩
      ⟨.ask 7 "a." .A, "192.0.2.1:53", .assigned 1⟩ 1
      (by simpa using hfirst) (by simp) rfl rfl
    exact absurd hunique (by decide)

end UdpMux

end Lazydns
