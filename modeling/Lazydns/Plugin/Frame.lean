import Lazydns.Plugin.CacheSpec
import Lazydns.Plugin.Preserve

/-!
# What a plugin leaves alone

A plugin without children writes only its own metadata keys, extends the trace, keeps the request's id, and keeps the request itself unless it records that it renamed the question. A response it leaves is one it built as a reply, one it edited without touching header, questions or response code, one that a cache served, or an upstream's.
-/

namespace Lazydns

open Dns

/-! ### Metadata keys -/

/-- The metadata keys that the server and the plugins themselves rely on. -/
def reservedKeys : List String :=
  [RETURN_FLAG, "jump_target", "goto_label", "__plugin_registry", "client_ip", "cache_checked",
    "response_from_cache", "background_lazy_refresh", "lazy_refresh_handler", "lazy_refresh_entry"]

namespace LocalPlugin

def keys : LocalPlugin → List String
  | accept | ret | reject _ => [RETURN_FLAG]
  | jump _ => ["jump_target", RETURN_FLAG]
  | goto _ => ["goto_label", RETURN_FLAG]
  | mark p => [p.markName]
  | querySummary p => [p.metadataKey]
  | geoIp p => [p.metadataKey]
  | geoSite p => [p.metadataKey]
  | ecs _ | edns0Opt _ => ["edns0_options", "edns0_preserve_existing"]
  | domainSet name => ["domain_set_" ++ name]
  | ipSetDataset name => ["ip_set_" ++ name]
  | ipSet _ => ["ipset_added"]
  | nftSet _ => ["nftset_added_v4", "nftset_added_v6"]
  | _ => []

/-- Whether the plugin writes under a name that its configuration gives, and that name is one of the reserved ones. -/
def takesReserved : LocalPlugin → Bool
  | mark p => reservedKeys.contains p.markName
  | querySummary p => reservedKeys.contains p.metadataKey
  | geoIp p => reservedKeys.contains p.metadataKey
  | geoSite p => reservedKeys.contains p.metadataKey
  | _ => false

end LocalPlugin

namespace Leaf

def keys : Leaf → List String
  | plain p => p.keys
  | cache _ => ["cache_checked", "response_from_cache", RETURN_FLAG]
  | rateLimit _ => [RETURN_FLAG]
  | _ => []

/-- No configured name is one of the reserved keys. -/
def Unreserved : Leaf → Prop
  | plain p => p.takesReserved = false
  | _ => True

end Leaf

/-! ### How contexts grow -/

/-- From `c` to `c'` only the metadata under `keys`, the response, the name of the first question, which is recorded, and the trace have changed. -/
structure Context.Grows (keys : List String) (c c' : Context) : Prop where
  metadata : ∀ key, key ∉ keys → c'.metadata key = c.metadata key
  trace : ∃ events, c'.trace = c.trace ++ events
  requestId : c'.request.id = c.request.id
  request : c'.request = c.request ∨ .renamed ∈ c'.trace

namespace Context.Grows

variable {keys : List String} {c c' c'' : Context}

theorem refl (keys : List String) (c : Context) : c.Grows keys c where
  metadata := fun _ _ => rfl
  trace := ⟨[], (List.append_nil _).symm⟩
  requestId := rfl
  request := .inl rfl

theorem mem_trace (h : c.Grows keys c') {event : TraceEvent} (hmem : event ∈ c.trace) :
    event ∈ c'.trace := by
  obtain ⟨events, htrace⟩ := h.trace
  rw [htrace]
  exact List.mem_append_left _ hmem

theorem setMetadata (h : c.Grows keys c') {key : String} (hkey : key ∈ keys) (value : MetaValue) :
    c.Grows keys (c'.setMetadata key value) where
  metadata := fun k hk => by
    have hne : k ≠ key := fun heq => hk (heq ▸ hkey)
    rw [Context.setMetadata_metadata, Function.update_of_ne hne]
    exact h.metadata k hk
  trace := h.trace
  requestId := h.requestId
  request := h.request

theorem setResponse (h : c.Grows keys c') (r : Option Message) : c.Grows keys (c'.setResponse r) where
  metadata := h.metadata
  trace := h.trace
  requestId := h.requestId
  request := h.request

theorem record (h : c.Grows keys c') (event : TraceEvent) : c.Grows keys (c'.record event) where
  metadata := h.metadata
  trace := by
    obtain ⟨events, htrace⟩ := h.trace
    exact ⟨events ++ [event], by rw [Context.record_trace, htrace, List.append_assoc]⟩
  requestId := h.requestId
  request := h.request.imp id fun hmem => List.mem_append_left _ hmem

theorem setRefused (h : c.Grows keys c') : c.Grows keys c'.setRefused := h.setResponse _

theorem answerFirst (h : c.Grows keys c') (q : Question) (reply : Message) :
    c.Grows keys (answerFirst c' q reply) := by
  rw [Lazydns.answerFirst]
  split
  · exact h.setResponse _
  · exact (h.record _).setResponse _

end Context.Grows

section

variable {env : Env} (ctx : Context)

theorem RedirectPlugin.execute_grows (p : RedirectPlugin) : ctx.Grows [] (p.execute env ctx) := by
  rw [execute]
  dsimp only
  split
  · rename_i heq
    rw [heq]
    exact .refl _ _
  · exact {
      metadata := fun _ _ => rfl
      trace := ⟨[.renamed], rfl⟩
      requestId := rfl
      request := .inr (List.mem_append_right _ (List.mem_singleton_self _)) }

theorem QueryAclPlugin.execute_grows (p : QueryAclPlugin) : ctx.Grows [] (p.execute ctx) := by
  rw [execute]
  split
  · exact .refl _ _
  · exact ((Context.Grows.refl _ _).record _).setRefused

theorem ArbitraryPlugin.execute_grows (p : ArbitraryPlugin) : ctx.Grows [] (p.execute env ctx) := by
  rw [execute]
  split
  · exact .refl _ _
  · split
    · exact (Context.Grows.refl _ _).answerFirst _ _
    · exact .refl _ _

theorem HostsPlugin.execute_grows (p : HostsPlugin) : ctx.Grows [] (p.execute env ctx) := by
  rw [execute]
  split
  · exact .refl _ _
  · split
    · exact .refl _ _
    · split
      · exact .refl _ _
      · split
        · exact (Context.Grows.refl _ _).answerFirst _ _
        · exact .refl _ _

theorem MarkPlugin.execute_grows (p : MarkPlugin) : ctx.Grows [p.markName] (p.execute ctx) := by
  rw [execute]
  split
  · exact (Context.Grows.refl _ _).setMetadata List.mem_cons_self _
  · exact (Context.Grows.refl _ _).setMetadata List.mem_cons_self _

theorem EcsPlugin.setOptions_grows (options : List (UInt16 × List UInt8)) :
    ctx.Grows ["edns0_options", "edns0_preserve_existing"] (EcsPlugin.setOptions ctx options) :=
  ((Context.Grows.refl _ _).setMetadata (by simp) _).setMetadata (by simp) _

theorem EcsPlugin.execute_grows (p : EcsPlugin) :
    ctx.Grows ["edns0_options", "edns0_preserve_existing"] (p.execute env ctx) := by
  rw [execute]
  split
  · exact setOptions_grows _ _
  · split
    · exact setOptions_grows _ _
    · split
      · exact setOptions_grows _ _
      · exact .refl _ _

theorem Edns0OptPlugin.execute_grows (p : Edns0OptPlugin) :
    ctx.Grows ["edns0_options", "edns0_preserve_existing"] (p.execute ctx) := by
  rw [execute]
  split
  · exact .refl _ _
  · exact ((Context.Grows.refl _ _).setMetadata (by simp) _).setMetadata (by simp) _

theorem GeoIpPlugin.execute_grows (p : GeoIpPlugin) : ctx.Grows [p.metadataKey] (p.execute ctx) := by
  rw [execute]
  split
  · exact .refl _ _
  · split
    · exact (Context.Grows.refl _ _).setMetadata List.mem_cons_self _
    · exact .refl _ _

theorem GeoSitePlugin.execute_grows (p : GeoSitePlugin) : ctx.Grows [p.metadataKey] (p.execute ctx) := by
  rw [execute]
  split
  · exact .refl _ _
  · split
    · exact .refl _ _
    · split
      · exact (Context.Grows.refl _ _).setMetadata List.mem_cons_self _
      · exact .refl _ _

theorem IpSetPlugin.execute_grows (p : IpSetPlugin) : ctx.Grows ["ipset_added"] (p.execute ctx) := by
  rw [execute]
  split
  · exact .refl _ _
  · dsimp only
    split
    · exact .refl _ _
    · exact (Context.Grows.refl _ _).setMetadata List.mem_cons_self _

theorem NftSetPlugin.setUnlessEmpty_grows {keys : List String} {key : String} (hkey : key ∈ keys)
    (added : List (String × IpNet)) {c c' : Context} (h : c.Grows keys c') :
    c.Grows keys (NftSetPlugin.setUnlessEmpty key added c') := by
  rw [setUnlessEmpty]
  split
  · exact h
  · exact h.setMetadata hkey _

theorem NftSetPlugin.execute_grows (p : NftSetPlugin) :
    ctx.Grows ["nftset_added_v4", "nftset_added_v6"] (p.execute ctx) := by
  rw [execute]
  split
  · exact .refl _ _
  · exact setUnlessEmpty_grows (by simp) _ (setUnlessEmpty_grows (by simp) _ (.refl _ _))

theorem LocalPlugin.execute_grows (p : LocalPlugin) : ctx.Grows p.keys (p.execute env ctx) := by
  have hrefl : ∀ keys, ctx.Grows keys ctx := fun keys => .refl keys ctx
  cases p with
  | accept => exact (hrefl _).setMetadata (by simp [keys]) _
  | ret => exact (hrefl _).setMetadata (by simp [keys]) _
  | reject rcode => exact ((hrefl _).setResponse _).setMetadata (by simp [keys]) _
  | jump target =>
    exact ((hrefl _).setMetadata (by simp [keys]) _).setMetadata (by simp [keys]) _
  | goto label =>
    exact ((hrefl _).setMetadata (by simp [keys]) _).setMetadata (by simp [keys]) _
  | queryAcl p => exact p.execute_grows ctx
  | blackhole p =>
    rw [execute, BlackholePlugin.execute]
    split
    · exact (hrefl _).setResponse _
    · exact hrefl _
  | arbitrary p => exact p.execute_grows ctx
  | hosts p => exact p.execute_grows ctx
  | redirect p => exact p.execute_grows ctx
  | ttl p => exact (hrefl _).setResponse _
  | preferIpv4 => exact (hrefl _).setResponse _
  | preferIpv6 => exact (hrefl _).setResponse _
  | dualSelector preference => exact (hrefl _).setResponse _
  | dropResp => exact (hrefl _).setResponse _
  | mark p => exact p.execute_grows ctx
  | querySummary p => exact (hrefl _).setMetadata (by simp [keys]) _
  | ecs p => exact p.execute_grows ctx
  | edns0Opt p => exact p.execute_grows ctx
  | geoIp p => exact p.execute_grows ctx
  | geoSite p => exact p.execute_grows ctx
  | domainSet name => exact (hrefl _).setMetadata (by simp [keys]) _
  | ipSetDataset name => exact (hrefl _).setMetadata (by simp [keys]) _
  | ipSet p => exact p.execute_grows ctx
  | nftSet p => exact p.execute_grows ctx
  | observer => exact hrefl _

end

/-- The plugins that at most leave metadata. -/
def LocalPlugin.annotates : LocalPlugin → Bool
  | accept | ret | jump _ | goto _ | mark _ | querySummary _ | ecs _ | edns0Opt _ | geoIp _ | geoSite _
  | domainSet _ | ipSetDataset _ | ipSet _ | nftSet _ | observer => true
  | _ => false

/-- Request, response and trace are the same. -/
structure Context.SameMessages (c c' : Context) : Prop where
  request : c'.request = c.request
  response : c'.response = c.response
  trace : c'.trace = c.trace

theorem Context.SameMessages.refl (c : Context) : c.SameMessages c := ⟨rfl, rfl, rfl⟩

theorem Context.SameMessages.setMetadata {c c' : Context} (h : c.SameMessages c') (key : String)
    (value : MetaValue) : c.SameMessages (c'.setMetadata key value) := ⟨h.request, h.response, h.trace⟩

theorem LocalPlugin.execute_annotates (env : Env) {p : LocalPlugin} (hp : p.annotates = true)
    (ctx : Context) : ctx.SameMessages (p.execute env ctx) := by
  have hrefl := Context.SameMessages.refl ctx
  cases p with
  | accept => exact hrefl.setMetadata _ _
  | ret => exact hrefl.setMetadata _ _
  | jump target => exact (hrefl.setMetadata _ _).setMetadata _ _
  | goto label => exact (hrefl.setMetadata _ _).setMetadata _ _
  | mark p =>
    rw [execute, MarkPlugin.execute]
    split <;> exact hrefl.setMetadata _ _
  | querySummary p => exact hrefl.setMetadata _ _
  | ecs p =>
    have hset : ∀ options, ctx.SameMessages (EcsPlugin.setOptions ctx options) :=
      fun options => (hrefl.setMetadata _ _).setMetadata _ _
    rw [execute, EcsPlugin.execute]
    split
    · exact hset _
    · split
      · exact hset _
      · split
        · exact hset _
        · exact hrefl
  | edns0Opt p =>
    rw [execute, Edns0OptPlugin.execute]
    split
    · exact hrefl
    · exact (hrefl.setMetadata _ _).setMetadata _ _
  | geoIp p =>
    rw [execute, GeoIpPlugin.execute]
    split
    · exact hrefl
    · split
      · exact hrefl.setMetadata _ _
      · exact hrefl
  | geoSite p =>
    rw [execute, GeoSitePlugin.execute]
    split
    · exact hrefl
    · split
      · exact hrefl
      · split
        · exact hrefl.setMetadata _ _
        · exact hrefl
  | domainSet name => exact hrefl.setMetadata _ _
  | ipSetDataset name => exact hrefl.setMetadata _ _
  | ipSet p =>
    rw [execute, IpSetPlugin.execute]
    split
    · exact hrefl
    · dsimp only
      split
      · exact hrefl
      · exact hrefl.setMetadata _ _
  | nftSet p =>
    have hset : ∀ key added c, ctx.SameMessages c →
        ctx.SameMessages (NftSetPlugin.setUnlessEmpty key added c) := by
      intro key added c hc
      rw [NftSetPlugin.setUnlessEmpty]
      split
      · exact hc
      · exact hc.setMetadata _ _
    rw [execute, NftSetPlugin.execute]
    split
    · exact hrefl
    · exact hset _ _ _ (hset _ _ _ hrefl)
  | observer => exact hrefl
  | _ => cases hp

/-! ### Where a response comes from -/

/-- The same header bits, response code and questions. -/
structure Dns.Message.SameHeader (m m' : Message) : Prop where
  qr : m'.qr = m.qr
  tc : m'.tc = m.tc
  rcode : m'.rcode = m.rcode
  questions : m'.questions = m.questions

theorem Dns.Message.SameHeader.refl (m : Message) : m.SameHeader m := ⟨rfl, rfl, rfl, rfl⟩

/-- How the response `m` that a plugin leaves came about: it is the one before, edited at most in its records; or a reply the plugin built; or one that a cache served from an entry in `A`; or an upstream's. -/
inductive Origin (env : Env) (A : Message → Prop) (ctx ctx' : Context) (m : Message) : Prop
  | kept (old : Message) (h : ctx.response = some old) (hm : old.SameHeader m)
  | built (hqr : m.qr = true) (htc : m.tc = false)
      (hquestions : m.questions = ctx.request.questions ∨ .answeredFirst ∈ ctx'.trace)
  | served (entry : Message) (h : A entry) (hqr : m.qr = entry.qr) (htc : m.tc = entry.tc)
      (hquestions : m.questions = ctx.request.questions)
  | upstream (n : Nat) (addr : String)
      (h : (ForwardPlugin.forwardQuery env n ctx.request addr).1 = .ok m)

section

variable {env : Env} {A : Message → Prop} {ctx : Context} {m : Message}

theorem origin_of_response {ctx' : Context} (h : ctx.response = some m) : Origin env A ctx ctx' m :=
  .kept m h (.refl m)

theorem origin_editResponse {g : Message → Message} (hg : ∀ m : Message, m.SameHeader (g m))
    (h : (editResponse g ctx).response = some m) : Origin env A ctx (editResponse g ctx) m := by
  obtain ⟨old, hold, rfl⟩ := Option.map_eq_some_iff.mp h
  exact .kept old hold (hg old)

theorem origin_answerFirst {q : Question} {reply : Message} (hqr : reply.qr = true)
    (htc : reply.tc = false) (hquestions : reply.questions = [q])
    (h : (answerFirst ctx q reply).response = some m) :
    Origin env A ctx (answerFirst ctx q reply) m := by
  have hm : reply = m := Option.some.inj h
  subst hm
  refine .built hqr htc ?_
  rw [answerFirst]
  split
  · rename_i heq
    exact .inl (hquestions.trans heq.symm)
  · exact .inr (List.mem_append_right _ (List.mem_singleton_self _))

theorem BlackholePlugin.makeResponse_eq_some {rtype : RecordType} {data : List RData}
    {req reply : Message} (h : makeResponse rtype data req = some reply) :
    reply.qr = true ∧ reply.tc = false ∧ reply.questions = req.questions := by
  rw [makeResponse] at h
  split at h
  · rename_i q hq
    split at h
    · cases h
    · cases h
      exact ⟨rfl, rfl, hq.symm⟩
  · cases h

theorem DualSelectorPlugin.select_sameHeader (preference : IpPreference) (m : Message) :
    m.SameHeader (select preference m) := by
  cases preference with
  | ipv4 => exact ⟨rfl, rfl, rfl, rfl⟩
  | ipv6 => exact ⟨rfl, rfl, rfl, rfl⟩
  | ipv4PreferIpv6Fallback =>
    rw [select]
    split
    · exact ⟨rfl, rfl, rfl, rfl⟩
    · exact .refl m
  | ipv6PreferIpv4Fallback =>
    rw [select]
    split
    · exact ⟨rfl, rfl, rfl, rfl⟩
    · exact .refl m
  | both => exact .refl m

theorem LocalPlugin.execute_origin (p : LocalPlugin) (h : (p.execute env ctx).response = some m) :
    Origin env A ctx (p.execute env ctx) m := by
  cases p with
  | reject rcode =>
    cases Option.some.inj h
    exact .built rfl rfl (.inl rfl)
  | queryAcl p =>
    revert h
    rw [execute, QueryAclPlugin.execute]
    split
    · exact origin_of_response
    · intro h
      cases Option.some.inj h
      exact .built rfl rfl (.inl rfl)
  | blackhole p =>
    revert h
    rw [execute, BlackholePlugin.execute]
    split
    · rename_i resp hresp
      intro h
      have hreply : resp.qr = true ∧ resp.tc = false ∧ resp.questions = ctx.request.questions := by
        rcases Option.or_eq_some_iff.mp hresp with hA | ⟨-, hAaaa⟩
        · exact BlackholePlugin.makeResponse_eq_some hA
        · exact BlackholePlugin.makeResponse_eq_some hAaaa
      cases Option.some.inj h
      exact .built hreply.1 hreply.2.1 (.inl hreply.2.2)
    · exact origin_of_response
  | arbitrary p =>
    revert h
    rw [execute, ArbitraryPlugin.execute]
    split
    · exact origin_of_response
    · split
      · exact origin_answerFirst rfl rfl rfl
      · exact origin_of_response
  | hosts p =>
    revert h
    rw [execute, HostsPlugin.execute]
    split
    · exact origin_of_response
    · split
      · exact origin_of_response
      · split
        · exact origin_of_response
        · split
          · exact origin_answerFirst rfl rfl rfl
          · exact origin_of_response
  | redirect p =>
    refine .kept m ?_ (.refl m)
    rw [← h, execute, RedirectPlugin.execute]
    dsimp only
    split
    · rfl
    · rfl
  | ttl p => exact origin_editResponse (fun m => ⟨rfl, rfl, rfl, rfl⟩) h
  | preferIpv4 => exact origin_editResponse (fun m => ⟨rfl, rfl, rfl, rfl⟩) h
  | preferIpv6 => exact origin_editResponse (fun m => ⟨rfl, rfl, rfl, rfl⟩) h
  | dualSelector preference =>
    exact origin_editResponse (DualSelectorPlugin.select_sameHeader preference) h
  | dropResp => cases h
  | _ => exact origin_of_response ((execute_annotates env rfl ctx).response.symm.trans h)

end

/-! ### Plugins with shared state -/

/-- What one step on behalf of a request does to the caches: at most one entry is added, the one `storedEntry` gives, under the request's key. -/
def CacheStep (env : Env) (ctx : Context) (w w' : World) : Prop :=
  ∀ i, (w.caches i).Shrinks (w'.caches i) ∨
    ∃ key entry, ctx.response ≠ none ∧ CachePlugin.makeKey env ctx.request = some key ∧
      (w.caches i).storedEntry w.now ctx = some entry ∧
      (w.caches i).Stored (w'.caches i) key entry

section

variable {env : Env} {ctx : Context}

theorem cacheStep_of_eq {w w' : World} (h : w'.caches = w.caches) : CacheStep env ctx w w' :=
  fun i => .inl (by rw [h]; exact .refl _)

theorem cacheStep_setCache {w : World} {i : Nat} {c : CachePlugin}
    (h : (w.caches i).Shrinks c ∨
      ∃ key entry, ctx.response ≠ none ∧ CachePlugin.makeKey env ctx.request = some key ∧
        (w.caches i).storedEntry w.now ctx = some entry ∧ (w.caches i).Stored c key entry) :
    CacheStep env ctx w (w.setCache i c) := by
  intro j
  rw [World.setCache_caches]
  by_cases hj : j = i
  · subst hj
    rwa [Function.update_self]
  · rw [Function.update_of_ne hj]
    exact .inl (.refl _)

/-- What a plugin may do to a context on behalf of a request, when the caches hold only responses in `A`. -/
structure LeafEffect (env : Env) (A : Message → Prop) (l : Leaf) (ctx ctx' : Context) : Prop where
  grows : ctx.Grows l.keys ctx'
  origin : ∀ m, ctx'.response = some m → Origin env A ctx ctx' m

theorem leafEffect_refl {A : Message → Prop} (l : Leaf) : LeafEffect env A l ctx ctx :=
  ⟨.refl _ _, fun _ h => origin_of_response h⟩

def CachesHold (A : Message → Prop) (w : World) : Prop :=
  ∀ i key entry, (w.caches i).cache.peek key = some entry → A entry.response

theorem Leaf.executeCache_effect {A : Message → Prop} (i : Nat) {w : World} (hw : CachesHold A w) :
    CacheStep env ctx w (executeCache env i ctx w).2 ∧
      LeafEffect env A (.cache i) ctx (executeCache env i ctx w).1 := by
  have hcases := CachePlugin.execute_cases env w.now ctx (w.caches i)
  rw [executeCache]
  dsimp only
  rcases hcases with heq | ⟨hnone, key, hkey, heq⟩ | ⟨hsome, key, entry, hkey, hentry, heq⟩
  · rw [heq]
    exact ⟨cacheStep_setCache (.inl (.refl _)), leafEffect_refl _⟩
  · obtain ⟨hshrinks, hctx⟩ := (w.caches i).tryServeFromCache_cases w.now key ctx
    rw [heq]
    refine ⟨cacheStep_setCache (.inl hshrinks), ?_⟩
    have hchecked : ctx.Grows (Leaf.cache i).keys (ctx.setMetadata "cache_checked" (.bool true)) :=
      (Context.Grows.refl _ _).setMetadata (by simp [keys]) _
    rcases hctx with hmiss | ⟨entry, ttl, hpeek, hserved⟩
    · rw [hmiss]
      exact ⟨hchecked, fun m h => origin_of_response h⟩
    · rw [hserved]
      refine ⟨?_, fun m h => ?_⟩
      · exact ((hchecked.setResponse _).setMetadata (by simp [keys]) _).setMetadata
          (by simp [keys]) _
      · cases Option.some.inj h
        exact .served entry.response (hw i key entry hpeek) rfl rfl rfl
  · rw [heq]
    exact ⟨cacheStep_setCache (.inr ⟨key, entry, hsome, hkey, hentry,
      CachePlugin.store_stored _ _ _⟩), leafEffect_refl _⟩

theorem Leaf.executeRateLimit_effect {A : Message → Prop} (i : Nat) (w : World) :
    LeafEffect env A (.rateLimit i) ctx (executeRateLimit i ctx w).1 := by
  rw [executeRateLimit, RateLimitPlugin.execute]
  split
  · exact leafEffect_refl _
  · split
    · refine ⟨(((Context.Grows.refl _ _).record _).setRefused).setMetadata (by simp [keys]) _,
        fun m h => ?_⟩
      cases Option.some.inj h
      exact .built rfl rfl (.inl rfl)
    · exact leafEffect_refl _

theorem Leaf.executeDomainValidator_effect {A : Message → Prop} (i : Nat) (w : World) :
    LeafEffect env A (.domainValidator i) ctx (executeDomainValidator i ctx w).1 := by
  have hresult : ∀ result, LeafEffect env A (.domainValidator i) ctx
      (DomainValidatorPlugin.handleResult result ctx) := by
    intro result
    cases result with
    | valid => exact leafEffect_refl _
    | invalid reason =>
      refine ⟨(Context.Grows.refl _ _).setRefused, fun m h => ?_⟩
      cases Option.some.inj h
      exact .built rfl rfl (.inl rfl)
  rw [executeDomainValidator, DomainValidatorPlugin.execute]
  dsimp only
  split
  · exact hresult _
  · exact hresult _

theorem Leaf.executeReverseLookup_effect {A : Message → Prop} (i : Nat) (w : World) :
    LeafEffect env A (.reverseLookup i) ctx (executeReverseLookup env i ctx w).1 := by
  rw [executeReverseLookup, ReverseLookupPlugin.execute]
  split
  · exact leafEffect_refl _
  · split
    · split
      · exact leafEffect_refl _
      · split
        · exact ⟨(Context.Grows.refl _ _).answerFirst _ _, fun m h =>
            origin_answerFirst rfl rfl rfl h⟩
        · exact leafEffect_refl _
    · exact leafEffect_refl _

end

/-! ### The forward plugin -/

namespace ForwardPlugin

variable {env : Env} {ctx : Context} {request : Message}

/-- A successful round brought an upstream's reply. -/
theorem attempt_eq_ok {i : Nat} {w : World} {m : Message} (h : (attempt env i request w).1 = .ok m) :
    ∃ n addr, (forwardQuery env n request addr).1 = .ok m := by
  rw [attempt] at h
  dsimp only at h
  split at h
  · cases h
  · exact ⟨_, _, h⟩

theorem attempt_caches (env : Env) (i : Nat) (request : Message) (w : World) :
    (attempt env i request w).2.caches = w.caches := by
  rw [attempt]
  dsimp only
  split
  · rfl
  · rfl

theorem firstSuccess_eq_some {lines : List (Nat × Except Error Message × Nat)} {elapsed : Nat}
    {p : ForwardPlugin} {m : Message} (h : (firstSuccess lines elapsed p).1 = some m) :
    ∃ idx t, (idx, Except.ok m, t) ∈ lines := by
  induction lines generalizing elapsed p with
  | nil => cases h
  | cons line rest ih =>
    obtain ⟨idx, r, t⟩ := line
    cases r with
    | ok reply =>
      cases Option.some.inj h
      exact ⟨idx, t, List.mem_cons_self⟩
    | error e =>
      obtain ⟨idx', t', hmem⟩ := ih h
      exact ⟨idx', t', List.mem_cons_of_mem _ hmem⟩

theorem executeConcurrent_eq_some {i : Nat} {w : World} {m : Message}
    (h : (executeConcurrent env i request w).1 = some m) :
    ∃ n addr, (forwardQuery env n request addr).1 = .ok m := by
  obtain ⟨idx, t, hmem⟩ := firstSuccess_eq_some h
  rw [finishOrder, List.mem_insertionSort, List.mem_mapIdx] at hmem
  obtain ⟨j, hj, heq⟩ := hmem
  simp only [Prod.mk.injEq] at heq
  exact ⟨_, _, congrArg Prod.fst heq.2⟩

variable {I : World → Prop} {A : Message → Prop}

theorem executeSequential_within (i rounds : Nat) (lastError : Option Error) :
    (executeSequential env i ctx.request rounds lastError ctx).Within I (CacheStep env ctx)
      (LeafEffect env A (.forward i) ctx) (· ≠ .outOfFuel) := by
  induction rounds generalizing lastError with
  | zero => exact Run.within_fail (leafEffect_refl _) nofun
  | succ rounds ih =>
    refine Proc.Within.bind (Q := fun r => ∀ m, r = .ok m →
      ∃ n addr, (forwardQuery env n ctx.request addr).1 = .ok m) ?_ ?_
    · exact Proc.within_atomic.mpr fun w _ =>
        ⟨cacheStep_of_eq (attempt_caches env i ctx.request w), fun _ => attempt_eq_ok⟩
    · intro r hr
      cases r with
      | ok response =>
        obtain ⟨n, addr, h⟩ := hr response rfl
        refine Run.within_done ⟨(Context.Grows.refl _ _).setResponse _, fun m hm => ?_⟩
        cases Option.some.inj hm
        exact .upstream n addr h
      | error e => exact ih (some e)

theorem execute_within (i : Nat) :
    (execute env i ctx).Within I (CacheStep env ctx) (LeafEffect env A (.forward i) ctx)
      (· ≠ .outOfFuel) := by
  rw [execute]
  split
  · exact Run.within_done (leafEffect_refl _)
  · refine Proc.Within.bind (Q := fun _ => True)
      (Proc.within_atomic.mpr fun w _ => ⟨cacheStep_of_eq rfl, trivial⟩) fun p _ => ?_
    refine Proc.Within.bind (Q := fun r : Option Message => ∀ m, r = some m →
      ∃ n addr, (forwardQuery env n ctx.request addr).1 = .ok m) ?_ ?_
    · rw [race]
      split
      · exact Proc.within_atomic.mpr fun w _ =>
          ⟨cacheStep_of_eq rfl, fun _ => executeConcurrent_eq_some⟩
      · exact fun m h => nomatch h
    · intro r hr
      cases r with
      | some response =>
        obtain ⟨n, addr, h⟩ := hr response rfl
        refine Run.within_done ⟨(Context.Grows.refl _ _).setResponse _, fun m hm => ?_⟩
        cases Option.some.inj hm
        exact .upstream n addr h
      | none => exact executeSequential_within i _ none

end ForwardPlugin

/-- All that a plugin without children can do on behalf of a request. -/
theorem Leaf.execute_within {env : Env} {A : Message → Prop} {I : World → Prop}
    (hI : ∀ w, I w → CachesHold A w) (l : Leaf) (ctx : Context) :
    (l.execute env ctx).Within I (CacheStep env ctx) (LeafEffect env A l ctx) (· ≠ .outOfFuel) := by
  cases l with
  | plain p =>
    exact Run.within_done ⟨p.execute_grows ctx, fun m h => p.execute_origin h⟩
  | cache i => exact Run.within_step fun w hw => executeCache_effect i (hI w hw)
  | rateLimit i =>
    exact Run.within_step fun w _ => ⟨cacheStep_of_eq rfl, executeRateLimit_effect i w⟩
  | domainValidator i =>
    exact Run.within_step fun w _ => ⟨cacheStep_of_eq rfl, executeDomainValidator_effect i w⟩
  | reverseLookup i =>
    exact Run.within_step fun w _ => ⟨cacheStep_of_eq rfl, executeReverseLookup_effect i w⟩
  | forward i => exact ForwardPlugin.execute_within i
  | sleep duration => exact Run.within_step fun w _ => ⟨cacheStep_of_eq rfl, leafEffect_refl _⟩
  | downloader =>
    refine Proc.within_atomic.mpr fun w _ => ⟨cacheStep_of_eq rfl, leafEffect_refl _, fun stop hstop => ?_⟩
    rintro rfl
    dsimp only [executeDownloader] at hstop
    cases hdownload : env.download w.downloads <;> rw [hdownload] at hstop <;> cases hstop

/-- Only a cache changes the caches. -/
theorem Leaf.execute_caches (env : Env) {l : Leaf} (hl : ∀ i, l ≠ .cache i) (ctx : Context) :
    Proc.Within (fun _ => True) (fun w w' : World => w'.caches = w.caches) (fun _ => True)
      (l.execute env ctx) := by
  cases l with
  | plain p => trivial
  | cache i => exact absurd rfl (hl i)
  | forward i =>
    have hsequential : ∀ rounds lastError, Proc.Within (fun _ => True)
        (fun w w' : World => w'.caches = w.caches) (fun _ => True)
        (ForwardPlugin.executeSequential env i ctx.request rounds lastError ctx) := by
      intro rounds
      induction rounds with
      | zero => exact fun _ => trivial
      | succ rounds ih =>
        intro lastError
        refine Proc.Within.bind (Q := fun _ => True) (Proc.within_atomic.mpr fun w _ =>
          ⟨ForwardPlugin.attempt_caches env i ctx.request w, trivial⟩) fun r _ => ?_
        cases r with
        | ok response => trivial
        | error e => exact ih (some e)
    change Proc.Within _ _ _ (ForwardPlugin.execute env i ctx)
    rw [ForwardPlugin.execute]
    split
    · trivial
    · refine Proc.Within.bind (Q := fun _ => True)
        (Proc.within_atomic.mpr fun w _ => ⟨rfl, trivial⟩) fun p _ => ?_
      refine Proc.Within.bind (Q := fun _ => True) ?_ fun r _ => ?_
      · rw [ForwardPlugin.race]
        split
        · exact Proc.within_atomic.mpr fun w _ => ⟨rfl, trivial⟩
        · trivial
      · cases r with
        | some response => trivial
        | none => exact hsequential _ none
  | _ => exact Proc.within_atomic.mpr fun w _ => ⟨rfl, trivial⟩

/-! ### The request of a run -/

/-- The request is the message a run started from, unless the trace says that its question was renamed; its id stays. -/
structure Context.From (m : Message) (ctx : Context) : Prop where
  requestId : ctx.request.id = m.id
  request : ctx.request = m ∨ .renamed ∈ ctx.trace

namespace Context.From

variable {m : Message} {c c' : Context}

theorem grows {keys : List String} (h : c.From m) (hgrows : c.Grows keys c') : c'.From m where
  requestId := hgrows.requestId.trans h.requestId
  request := by
    rcases hgrows.request with heq | hrenamed
    · exact h.request.imp heq.trans hgrows.mem_trace
    · exact .inr hrenamed

theorem controlFree (m : Message) : ControlFree (Context.From m) where
  record := fun _ _ _ h => ⟨h.requestId, h.request.imp id (List.mem_append_left _)⟩
  setFlag := fun _ _ h => ⟨h.requestId, h.request⟩
  remove := fun _ _ _ h => ⟨h.requestId, h.request⟩

end Context.From

theorem Leaf.preserves_from (env : Env) (m : Message) (l : Leaf) :
    l.Preserves env (fun _ => True) (fun _ _ => True) (Context.From m) (fun _ => True) := by
  intro ctx hctx
  refine Proc.Within.mono (Leaf.execute_within (A := fun _ => True) (fun _ _ _ _ _ _ => trivial) l ctx)
    (fun _ _ _ _ => trivial) fun r hr => ⟨hctx.grows hr.1.grows, fun _ _ => trivial⟩

end Lazydns
