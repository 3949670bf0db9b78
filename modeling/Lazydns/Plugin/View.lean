import Lazydns.Plugin.Sequence

/-!
# Two requests that look the same to every plugin

Message ids and the transport's own metadata (the protocol, the socket address, the port, the start time) are carried along but decide nothing, and without a question neither does the mark of a background refresh. `Context.Same f` relates two contexts that agree but for these, where `f` says what may still be told from an id: everything with `id`, nothing with a constant function. Every plugin without state takes two such contexts to two such contexts.
-/

namespace Lazydns

open Dns

variable {f : UInt16 → UInt16}

/-! ### Messages and metadata -/

/-- A message with its id seen through `f`. -/
def Dns.Message.view (f : UInt16 → UInt16) (m : Message) : Message := { m with id := f m.id }

/-- A metadata value without the parts that differ between transports. -/
def MetaValue.view : MetaValue → MetaValue
  | .socketAddr _ => .socketAddr ⟨.v4 0, 0⟩
  | .port _ => .port 0
  | .instant _ => .instant 0
  | value => value

section

variable {m m' : Message} (h : m.view f = m'.view f)

include h

theorem view_id : f m.id = f m'.id := (congrArg Message.id h :)
theorem view_ad : m.ad = m'.ad := (congrArg Message.ad h :)
theorem view_cd : m.cd = m'.cd := (congrArg Message.cd h :)
theorem view_rcode : m.rcode = m'.rcode := (congrArg Message.rcode h :)
theorem view_questions : m.questions = m'.questions := (congrArg Message.questions h :)
theorem view_answers : m.answers = m'.answers := (congrArg Message.answers h :)
theorem view_records : m.records = m'.records := (congrArg Message.records h :)
theorem view_additional : m.additional = m'.additional := (congrArg Message.additional h :)

theorem eq_of_view : m' = { m with id := m'.id } := by
  cases m
  cases m'
  simp only [Message.view, Message.mk.injEq, true_and] at h ⊢
  obtain ⟨-, h⟩ := h
  simp [h]

end

/-- The metadata keys that may be carried along without deciding anything. -/
def carriedKeys : List String := ["protocol", "background_lazy_refresh"]

/-- The metadata under the key decides nothing for this context. -/
def Context.Carried (c : Context) (key : String) : Prop :=
  key = "protocol" ∨ key = "background_lazy_refresh" ∧ c.request.questions = []

theorem Context.not_carried {c : Context} {key : String} (h : key ∉ carriedKeys) : ¬ c.Carried key := by
  simp only [carriedKeys, List.mem_cons, List.not_mem_nil, or_false, not_or] at h
  rintro (heq | ⟨heq, -⟩)
  · exact h.1 heq
  · exact h.2 heq

/-- Two contexts that agree but for ids, as far as `f` tells, and for metadata that decides nothing. -/
structure Context.Same (f : UInt16 → UInt16) (c c' : Context) : Prop where
  request : c.request.view f = c'.request.view f
  response : c.response.map (Message.view f) = c'.response.map (Message.view f)
  metadata : ∀ key, ¬ c.Carried key →
    (c.metadata key).map MetaValue.view = (c'.metadata key).map MetaValue.view
  trace : c.trace = c'.trace

namespace Context.Same

variable {c c' : Context}

theorem refl (c : Context) : c.Same f c := ⟨rfl, rfl, fun _ _ => rfl, rfl⟩

/-! ### Reading -/

section

variable (h : c.Same f c') {key : String} (hkey : key ∉ carriedKeys)

include h

theorem response_cases : (c.response = none ∧ c'.response = none) ∨
    ∃ m m', c.response = some m ∧ c'.response = some m' ∧ m.view f = m'.view f := by
  have hresp := h.response
  cases hc : c.response with
  | none =>
    rw [hc, Option.map_none, eq_comm, Option.map_eq_none_iff] at hresp
    exact .inl ⟨rfl, hresp⟩
  | some m =>
    rw [hc, Option.map_some, eq_comm, Option.map_eq_some_iff] at hresp
    obtain ⟨m', hm', heq⟩ := hresp
    exact .inr ⟨m, m', rfl, hm', heq.symm⟩

theorem hasResponse : c.hasResponse = c'.hasResponse := by
  rw [Context.hasResponse, Context.hasResponse, ← Option.isSome_map (f := Message.view f), h.response,
    Option.isSome_map]

theorem questions : c.request.questions = c'.request.questions := view_questions h.request

private theorem meta_cases (hkey : ¬ c.Carried key) : (c.metadata key = none ∧ c'.metadata key = none) ∨
    ∃ v v', c.metadata key = some v ∧ c'.metadata key = some v' ∧ v.view = v'.view := by
  have hmeta := h.metadata key hkey
  cases hc : c.metadata key with
  | none =>
    rw [hc, Option.map_none, eq_comm, Option.map_eq_none_iff] at hmeta
    exact .inl ⟨rfl, hmeta⟩
  | some v =>
    rw [hc, Option.map_some, eq_comm, Option.map_eq_some_iff] at hmeta
    obtain ⟨v', hv', heq⟩ := hmeta
    exact .inr ⟨v, v', rfl, hv', heq.symm⟩

theorem getBool_of_not_carried (hkey : ¬ c.Carried key) : c.getBool key = c'.getBool key := by
  rcases h.meta_cases hkey with ⟨hc, hc'⟩ | ⟨v, v', hc, hc', hv⟩ <;>
    rw [Context.getBool, Context.getBool, hc, hc']
  cases v <;> cases v' <;> simp_all [MetaValue.view]

include hkey

theorem getBool : c.getBool key = c'.getBool key := h.getBool_of_not_carried (not_carried hkey)

theorem hasMetadata : c.hasMetadata key = c'.hasMetadata key := by
  rcases h.meta_cases (not_carried hkey) with ⟨hc, hc'⟩ | ⟨v, v', hc, hc', -⟩
  · rw [Context.hasMetadata, Context.hasMetadata, hc, hc']
  · rw [Context.hasMetadata, Context.hasMetadata, hc, hc']
    rfl

theorem getString : c.getString key = c'.getString key := by
  rcases h.meta_cases (not_carried hkey) with ⟨hc, hc'⟩ | ⟨v, v', hc, hc', hv⟩ <;>
    rw [Context.getString, Context.getString, hc, hc']
  cases v <;> cases v' <;> simp_all [MetaValue.view]

theorem getIp : c.getIp key = c'.getIp key := by
  rcases h.meta_cases (not_carried hkey) with ⟨hc, hc'⟩ | ⟨v, v', hc, hc', hv⟩ <;>
    rw [Context.getIp, Context.getIp, hc, hc']
  cases v <;> cases v' <;> simp_all [MetaValue.view]

theorem getHandler : c.getHandler key = c'.getHandler key := by
  rcases h.meta_cases (not_carried hkey) with ⟨hc, hc'⟩ | ⟨v, v', hc, hc', hv⟩ <;>
    rw [Context.getHandler, Context.getHandler, hc, hc']
  cases v <;> cases v' <;> simp_all [MetaValue.view]

theorem getRegistry : c.getRegistry key = c'.getRegistry key := by
  rcases h.meta_cases (not_carried hkey) with ⟨hc, hc'⟩ | ⟨v, v', hc, hc', hv⟩ <;>
    rw [Context.getRegistry, Context.getRegistry, hc, hc']
  cases v <;> cases v' <;> simp_all [MetaValue.view]

theorem getOptions : c.getOptions key = c'.getOptions key := by
  rcases h.meta_cases (not_carried hkey) with ⟨hc, hc'⟩ | ⟨v, v', hc, hc', hv⟩ <;>
    rw [Context.getOptions, Context.getOptions, hc, hc']
  cases v <;> cases v' <;> simp_all [MetaValue.view]

theorem getPrefixes : c.getPrefixes key = c'.getPrefixes key := by
  rcases h.meta_cases (not_carried hkey) with ⟨hc, hc'⟩ | ⟨v, v', hc, hc', hv⟩ <;>
    rw [Context.getPrefixes, Context.getPrefixes, hc, hc']
  cases v <;> cases v' <;> simp_all [MetaValue.view]

end

/-! ### Changing -/

theorem setMetadata_of_view {v v' : MetaValue} (h : c.Same f c') (key : String)
    (hv : key ≠ "protocol" → v.view = v'.view) :
    (c.setMetadata key v).Same f (c'.setMetadata key v') where
  request := h.request
  response := h.response
  trace := h.trace
  metadata := fun k hk => by
    rw [Context.setMetadata_metadata, Context.setMetadata_metadata]
    by_cases hkey : k = key
    · subst hkey
      rw [Function.update_self, Function.update_self, Option.map_some, Option.map_some,
        hv fun heq => hk (.inl heq)]
    · rw [Function.update_of_ne hkey, Function.update_of_ne hkey]
      exact h.metadata k hk

theorem setMetadata (h : c.Same f c') (key : String) (v : MetaValue) :
    (c.setMetadata key v).Same f (c'.setMetadata key v) :=
  h.setMetadata_of_view key fun _ => rfl

theorem removeMetadata (h : c.Same f c') (key : String) :
    (c.removeMetadata key).Same f (c'.removeMetadata key) where
  request := h.request
  response := h.response
  trace := h.trace
  metadata := fun k hk => by
    rw [Context.removeMetadata_metadata, Context.removeMetadata_metadata]
    by_cases hkey : k = key
    · subst hkey
      rw [Function.update_self, Function.update_self]
    · rw [Function.update_of_ne hkey, Function.update_of_ne hkey]
      exact h.metadata k hk

theorem setResponse {r r' : Option Message} (h : c.Same f c')
    (hr : r.map (Message.view f) = r'.map (Message.view f)) :
    (c.setResponse r).Same f (c'.setResponse r') :=
  ⟨h.request, hr, h.metadata, h.trace⟩

theorem record (h : c.Same f c') (e : TraceEvent) : (c.record e).Same f (c'.record e) :=
  ⟨h.request, h.response, h.metadata, congrArg (· ++ [e]) h.trace⟩

theorem setRefused (h : c.Same f c') : c.setRefused.Same f c'.setRefused := by
  refine h.setResponse (congrArg some ?_)
  simp only [Message.view, view_id h.request, h.questions]

theorem setReply (h : c.Same f c') (questions : List Question) (answers : List ResourceRecord)
    (g : Message → Message) (hg : ∀ m, (g m).view f = g (m.view f)) :
    (c.setResponse (some (g (replyTo c.request questions answers)))).Same f
      (c'.setResponse (some (g (replyTo c'.request questions answers)))) := by
  refine h.setResponse (congrArg some ?_)
  rw [hg, hg]
  simp only [replyTo, Message.view, view_id h.request]

theorem answerFirst (h : c.Same f c') (q : Question) (answers : List ResourceRecord)
    (g : Message → Message) (hg : ∀ m, (g m).view f = g (m.view f)) :
    (answerFirst c q (g (replyTo c.request [q] answers))).Same f
      (answerFirst c' q (g (replyTo c'.request [q] answers))) := by
  rw [Lazydns.answerFirst, Lazydns.answerFirst, h.questions]
  split
  · exact h.setReply _ _ g hg
  · exact (h.record .answeredFirst).setReply _ _ g hg

theorem editResponse (h : c.Same f c') {g : Message → Message}
    (hg : ∀ m, (g m).view f = g (m.view f)) :
    (editResponse g c).Same f (editResponse g c') := by
  refine h.setResponse ?_
  rcases h.response_cases with ⟨hc, hc'⟩ | ⟨m, m', hc, hc', hm⟩
  · rw [hc, hc']
  · rw [hc, hc']
    exact congrArg some ((hg m).trans ((congrArg g hm).trans (hg m').symm))

end Context.Same

/-! ### Plugins without state -/

section

variable {env : Env} {c c' : Context}

theorem Condition.eval_same (h : c.Same f c') (condition : Condition) :
    condition.eval env c = condition.eval env c' := by
  have hresp : ∀ g : Message → Bool, (∀ m m', m.view f = m'.view f → g m = g m') →
      c.response.any g = c'.response.any g := by
    intro g hg
    rcases h.response_cases with ⟨hc, hc'⟩ | ⟨m, m', hc, hc', hm⟩
    · rw [hc, hc']
    · rw [hc, hc']
      exact hg m m' hm
  have hset : ∀ inSet, answerInSet inSet c = answerInSet inSet c' := fun inSet =>
    hresp _ fun m m' hm => by rw [view_answers hm]
  cases condition with
  | hasResp => exact h.hasResponse
  | hasCname => exact hresp _ fun m m' hm => by rw [view_answers hm]
  | qclass classes => rw [eval, eval, h.questions]
  | qtype types => rw [eval, eval, h.questions]
  | rcode codes => exact hresp _ fun m m' hm => by rw [view_rcode hm]
  | qname inSet => rw [eval, eval, h.questions]
  | notQname domain => rw [eval, eval, h.questions]
  | respIp inSet => exact hset inSet
  | notRespIp inSet => exact congrArg not (hset inSet)
  | const value => rfl

theorem QueryAclPlugin.execute_same (p : QueryAclPlugin) (h : c.Same f c') :
    (p.execute c).Same f (p.execute c') := by
  have hip : clientIp c = clientIp c' := by
    rw [clientIp, clientIp, h.getIp (by decide)]
  rw [execute, execute, hip]
  cases p.evaluate (clientIp c') with
  | allow => exact h
  | deny => exact (h.record _).setRefused

theorem BlackholePlugin.makeResponse_same (rtype : RecordType) (data : List RData)
    {m m' : Message} (h : m.view f = m'.view f) :
    (makeResponse rtype data m).map (Message.view f) =
      (makeResponse rtype data m').map (Message.view f) := by
  rw [makeResponse, makeResponse, view_questions h]
  split
  · split
    · rfl
    · simp only [replyTo, Message.view, view_id h, Option.map_some]
  · rfl

theorem BlackholePlugin.execute_same (p : BlackholePlugin) (h : c.Same f c') :
    (p.execute c).Same f (p.execute c') := by
  have hreply : ((p.makeResponseForA c.request).or (p.makeResponseForAaaa c.request)).map
      (Message.view f) = ((p.makeResponseForA c'.request).or
        (p.makeResponseForAaaa c'.request)).map (Message.view f) := by
    rw [Option.map_or, Option.map_or, makeResponseForA, makeResponseForAaaa,
      makeResponse_same _ _ h.request, makeResponse_same _ _ h.request]
  rw [execute, execute]
  generalize (p.makeResponseForA c.request).or (p.makeResponseForAaaa c.request) = r at hreply
  generalize (p.makeResponseForA c'.request).or (p.makeResponseForAaaa c'.request) = r' at hreply
  cases r with
  | none =>
    cases r' with
    | none => exact h
    | some m' => cases hreply
  | some m =>
    cases r' with
    | none => cases hreply
    | some m' => exact h.setResponse hreply

theorem ArbitraryPlugin.execute_same (p : ArbitraryPlugin) (h : c.Same f c') :
    (p.execute env c).Same f (p.execute env c') := by
  rw [execute, execute, h.questions]
  cases c'.request.questions.head? with
  | none => exact h
  | some q =>
    simp only
    cases p.map (env.toLowercase (trimEndDots q.qname)) with
    | none => exact h
    | some rrs => exact h.answerFirst q rrs id fun _ => rfl

theorem HostsPlugin.execute_same (p : HostsPlugin) (h : c.Same f c') :
    (p.execute env c).Same f (p.execute env c') := by
  rw [execute, execute, h.hasResponse, h.questions]
  split
  · exact h
  · cases c'.request.questions.head? with
    | none => exact h
    | some q =>
      simp only
      split
      · exact h
      · cases p.hosts (env.toLowercase (trimEndDots q.qname)) with
        | none => exact h
        | some ips =>
          exact h.answerFirst q (ips.filterMap (hostRecord q)) (fun m => { m with aa := true })
            fun _ => rfl

theorem RedirectPlugin.rewriteFirst_eq_nil (p : RedirectPlugin) {questions : List Question} :
    p.rewriteFirst env questions = [] ↔ questions = [] := by
  cases questions with
  | nil => exact Iff.rfl
  | cons q rest => simp [rewriteFirst]

theorem RedirectPlugin.execute_same (p : RedirectPlugin) (h : c.Same f c') :
    (p.execute env c).Same f (p.execute env c') := by
  have hsame : Context.Same f
      { c with request :=
          { c.request with questions := p.rewriteFirst env c'.request.questions } }
      { c' with request :=
          { c'.request with questions := p.rewriteFirst env c'.request.questions } } := by
    refine ⟨?_, h.response, fun key hkey => h.metadata key ?_, h.trace⟩
    · have hreq := eq_of_view h.request
      simp only [Message.view, view_id h.request]
      rw [hreq]
    · simpa only [Context.Carried, rewriteFirst_eq_nil, h.questions] using hkey
  rw [execute, execute, h.questions]
  dsimp only
  split
  · exact hsame
  · exact hsame.record .renamed

theorem EcsPlugin.execute_same (p : EcsPlugin) (h : c.Same f c') :
    (p.execute env c).Same f (p.execute env c') := by
  have hset : ∀ options, (setOptions c options).Same f (setOptions c' options) :=
    fun _ => (h.setMetadata _ _).setMetadata _ _
  rw [execute, execute, h.getOptions (by decide), h.getString (by decide)]
  split
  · exact hset _
  · split
    · exact hset _
    · split
      · exact hset _
      · exact h

theorem GeoIpPlugin.execute_same (p : GeoIpPlugin) (h : c.Same f c') :
    (p.execute c).Same f (p.execute c') := by
  rw [execute, execute]
  rcases h.response_cases with ⟨hc, hc'⟩ | ⟨m, m', hc, hc', hm⟩
  · rw [hc, hc']
    exact h
  · rw [hc, hc']
    simp only [view_answers hm]
    split
    · exact h.setMetadata _ _
    · exact h

theorem GeoSitePlugin.execute_same (p : GeoSitePlugin) (h : c.Same f c') :
    (p.execute c).Same f (p.execute c') := by
  rw [execute, execute, h.questions]
  split
  · exact h
  · split
    · exact h
    · split
      · exact h.setMetadata _ _
      · exact h

theorem setAdditions_same (target : IpAddr → Option SetTarget) {m m' : Message}
    (h : m.view f = m'.view f) : setAdditions target m = setAdditions target m' := by
  rw [setAdditions, setAdditions, view_answers h]

theorem IpSetPlugin.execute_same (p : IpSetPlugin) (h : c.Same f c') :
    (p.execute c).Same f (p.execute c') := by
  rw [execute, execute]
  rcases h.response_cases with ⟨hc, hc'⟩ | ⟨m, m', hc, hc', hm⟩
  · rw [hc, hc']
    exact h
  · rw [hc, hc']
    dsimp only
    rw [setAdditions_same _ hm, h.getPrefixes (by decide)]
    split
    · exact h
    · exact h.setMetadata _ _

theorem NftSetPlugin.execute_same (p : NftSetPlugin) (h : c.Same f c') :
    (p.execute c).Same f (p.execute c') := by
  have hset : ∀ key added {d d' : Context}, d.Same f d' →
      (setUnlessEmpty key added d).Same f (setUnlessEmpty key added d') := by
    intro key added d d' hd
    rw [setUnlessEmpty, setUnlessEmpty]
    split
    · exact hd
    · exact hd.setMetadata _ _
  rw [execute, execute]
  rcases h.response_cases with ⟨hc, hc'⟩ | ⟨m, m', hc, hc', hm⟩
  · rw [hc, hc']
    exact h
  · rw [hc, hc']
    dsimp only
    rw [setAdditions_same _ hm, setAdditions_same _ hm]
    exact hset _ _ (hset _ _ h)

theorem LocalPlugin.execute_same (p : LocalPlugin) (h : c.Same f c') :
    (p.execute env c).Same f (p.execute env c') := by
  cases p with
  | accept => exact h.setMetadata _ _
  | ret => exact h.setMetadata _ _
  | reject rcode =>
    refine Context.Same.setMetadata ?_ _ _
    rw [h.questions]
    exact h.setReply _ [] (fun m => { m with rcode := ResponseCode.fromU8 rcode }) fun _ => rfl
  | jump target => exact (h.setMetadata _ _).setMetadata _ _
  | goto label => exact (h.setMetadata _ _).setMetadata _ _
  | queryAcl p => exact p.execute_same h
  | blackhole p => exact p.execute_same h
  | arbitrary p => exact p.execute_same h
  | hosts p => exact p.execute_same h
  | redirect p => exact p.execute_same h
  | ttl p => exact h.editResponse fun _ => rfl
  | preferIpv4 => exact h.editResponse fun _ => rfl
  | preferIpv6 => exact h.editResponse fun _ => rfl
  | dualSelector preference =>
    refine h.editResponse fun m => ?_
    cases preference with
    | ipv4 => rfl
    | ipv6 => rfl
    | ipv4PreferIpv6Fallback =>
      simp only [DualSelectorPlugin.select, apply_ite (Message.view f)]
      rfl
    | ipv6PreferIpv4Fallback =>
      simp only [DualSelectorPlugin.select, apply_ite (Message.view f)]
      rfl
    | both => rfl
  | dropResp => exact h.setResponse rfl
  | mark p =>
    simp only [execute, MarkPlugin.execute]
    cases p.markValue <;> exact h.setMetadata _ _
  | querySummary p =>
    simp only [execute, QuerySummaryPlugin.execute, h.questions]
    exact h.setMetadata _ _
  | ecs p => exact p.execute_same h
  | edns0Opt p =>
    simp only [execute, Edns0OptPlugin.execute]
    split
    · exact h
    · exact (h.setMetadata _ _).setMetadata _ _
  | geoIp p => exact p.execute_same h
  | geoSite p => exact p.execute_same h
  | domainSet name => exact h.setMetadata _ _
  | ipSetDataset name => exact h.setMetadata _ _
  | ipSet p => exact p.execute_same h
  | nftSet p => exact p.execute_same h
  | observer => exact h

end

end Lazydns
