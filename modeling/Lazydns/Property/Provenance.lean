import Lazydns.Property.Response

/-!
# Where answers come from

In a server whose plugins forward, cache, select and refuse, nothing is made up: in every interleaving of requests, refreshes and clean-ups, each record a client gets is one that an upstream sent in its reply to a query with the cache key of the client's own request, up to the TTL. A response that is not an upstream's has no records, and its code is one that a plugin refuses with.

A redirect is left out here, since it changes the key of a request under way, and so are the plugins that answer from their own data.
-/

namespace Lazydns

open Dns

/-! ### What a relay may change -/

def Dns.ResourceRecord.untimed (rr : ResourceRecord) : ResourceRecord := { rr with ttl := 0 }

/-- `m` has the header bits and the code of `reply`, and of its records some, in their order, with other TTLs. -/
structure Dns.Message.Conveys (reply m : Message) : Prop where
  aa : m.aa = reply.aa
  tc : m.tc = reply.tc
  ad : m.ad = reply.ad
  rcode : m.rcode = reply.rcode
  answers : (m.answers.map ResourceRecord.untimed).Sublist (reply.answers.map ResourceRecord.untimed)
  authority : (m.authority.map ResourceRecord.untimed).Sublist (reply.authority.map ResourceRecord.untimed)
  additional : (m.additional.map ResourceRecord.untimed).Sublist (reply.additional.map ResourceRecord.untimed)

namespace Dns.Message.Conveys

variable {m m' m'' : Message}

theorem refl (m : Message) : m.Conveys m := ⟨rfl, rfl, rfl, rfl, .refl _, .refl _, .refl _⟩

theorem trans (h : m.Conveys m') (h' : m'.Conveys m'') : m.Conveys m'' where
  aa := h'.aa.trans h.aa
  tc := h'.tc.trans h.tc
  ad := h'.ad.trans h.ad
  rcode := h'.rcode.trans h.rcode
  answers := h'.answers.trans h.answers
  authority := h'.authority.trans h.authority
  additional := h'.additional.trans h.additional

theorem mapTtl (m : Message) (ttl : ResourceRecord → Nat) :
    m.Conveys (m.mapRecords fun rr => { rr with ttl := ttl rr }) := by
  have hsame : ∀ records : List ResourceRecord,
      ((records.map fun rr => { rr with ttl := ttl rr }).map ResourceRecord.untimed).Sublist
        (records.map ResourceRecord.untimed) := by
    intro records
    rw [List.map_map]
    exact .refl _
  exact ⟨rfl, rfl, rfl, rfl, hsame m.answers, hsame m.authority, hsame m.additional⟩

theorem served (m : Message) (ttl : Nat) (id : UInt16) (questions : List Question) :
    m.Conveys { CachePlugin.updateTtls m ttl with id, questions } := by
  have h := mapTtl m fun _ => ttl
  exact ⟨h.aa, h.tc, h.ad, h.rcode, h.answers, h.authority, h.additional⟩

theorem filter (m : Message) (keep keep' : ResourceRecord → Bool) :
    m.Conveys { m with answers := m.answers.filter keep, additional := m.additional.filter keep' } :=
  ⟨rfl, rfl, rfl, rfl, List.filter_sublist.map _, .refl _, List.filter_sublist.map _⟩

theorem filterAnswers (m : Message) (keep : ResourceRecord → Bool) :
    m.Conveys { m with answers := m.answers.filter keep } :=
  ⟨rfl, rfl, rfl, rfl, List.filter_sublist.map _, .refl _, .refl _⟩

end Dns.Message.Conveys

/-- A response without records, with one of these codes. -/
structure Bare (codes : ResponseCode → Prop) (m : Message) : Prop where
  rcode : codes m.rcode
  answers : m.answers = []
  authority : m.authority = []
  additional : m.additional = []

theorem Bare.conveys {codes : ResponseCode → Prop} {m m' : Message} (h : Bare codes m) (hm : m.Conveys m') :
    Bare codes m' := by
  have hnil : ∀ {records records' : List ResourceRecord}, records = [] →
      (records'.map ResourceRecord.untimed).Sublist (records.map ResourceRecord.untimed) → records' = [] := by
    intro records records' hrecords hsublist
    rw [hrecords] at hsublist
    exact List.map_eq_nil_iff.mp (List.sublist_nil.mp hsublist)
  refine ⟨?_, hnil h.answers hm.answers, hnil h.authority hm.authority, hnil h.additional hm.additional⟩
  rw [hm.rcode]
  exact h.rcode

/-- A refusal, or what came of an upstream's reply to a query with the key of the request. -/
def Genuine (env : Env) (codes : ResponseCode → Prop) (request m : Message) : Prop :=
  Bare codes m ∨ ∃ n addr asked reply, CachePlugin.makeKey env asked = CachePlugin.makeKey env request ∧
    (ForwardPlugin.forwardQuery env n asked addr).1 = .ok reply ∧ reply.Conveys m

namespace Genuine

variable {env : Env} {codes : ResponseCode → Prop} {request request' m m' : Message}

theorem conveys (h : Genuine env codes request m) (hm : m.Conveys m') : Genuine env codes request m' := by
  obtain hbare | ⟨n, addr, asked, reply, hkey, hreply, hconveys⟩ := h
  · exact .inl (hbare.conveys hm)
  · exact .inr ⟨n, addr, asked, reply, hkey, hreply, hconveys.trans hm⟩

theorem sameKey (h : Genuine env codes request m)
    (hkey : CachePlugin.makeKey env request = CachePlugin.makeKey env request') : Genuine env codes request' m := by
  rwa [Genuine, ← hkey]

end Genuine

/-! ### What a plugin leaves -/

/-- A plugin that does not answer by itself, except with one of these codes and nothing else, and does not touch the request. -/
def LocalPlugin.Relays (codes : ResponseCode → Prop) : LocalPlugin → Prop
  | .reject rcode => codes (ResponseCode.fromU8 rcode)
  | .queryAcl _ => codes .refused
  | .blackhole _ | .arbitrary _ | .hosts _ | .redirect _ => False
  | _ => True

def Leaf.Relays (codes : ResponseCode → Prop) : Leaf → Prop
  | .plain p => p.Relays codes
  | .rateLimit _ | .domainValidator _ => codes .refused
  | .reverseLookup _ => False
  | _ => True

section

variable {env : Env} {codes : ResponseCode → Prop} {ctx : Context}

/-- The request is the same, and so is the response but for the records it may have lost; or it is a refusal. -/
structure Context.Relayed (codes : ResponseCode → Prop) (ctx ctx' : Context) : Prop where
  request : ctx'.request = ctx.request
  response : ∀ m, ctx'.response = some m → (∃ old, ctx.response = some old ∧ old.Conveys m) ∨ Bare codes m

theorem Context.Relayed.of_same {ctx' : Context} (h : ctx.SameMessages ctx') : ctx.Relayed codes ctx' := by
  refine ⟨h.request, fun m hm => .inl ⟨m, ?_, .refl m⟩⟩
  rw [← h.response]
  exact hm

theorem editResponse_relayed {f : Message → Message} (hf : ∀ m : Message, m.Conveys (f m)) :
    ctx.Relayed codes (editResponse f ctx) := by
  refine ⟨rfl, fun m hm => .inl ?_⟩
  obtain ⟨old, hold, rfl⟩ := Option.map_eq_some_iff.mp hm
  exact ⟨old, hold, hf old⟩

theorem bare_refused (hrefused : codes .refused) {m : Message} (hm : ctx.setRefused.response = some m) :
    Bare codes m := by
  cases Option.some.inj hm
  exact ⟨hrefused, rfl, rfl, rfl⟩

theorem DualSelectorPlugin.select_conveys (preference : IpPreference) (m : Message) :
    m.Conveys (select preference m) := by
  cases preference with
  | ipv4 => exact .filterAnswers m _
  | ipv6 => exact .filterAnswers m _
  | ipv4PreferIpv6Fallback =>
    rw [select]
    split
    · exact .filterAnswers m _
    · exact .refl m
  | ipv6PreferIpv4Fallback =>
    rw [select]
    split
    · exact .filterAnswers m _
    · exact .refl m
  | both => exact .refl m

theorem TtlPlugin.execute_relayed (p : TtlPlugin) : ctx.Relayed codes (p.execute ctx) := by
  have happly : ∀ m : Message, m.Conveys (p.apply m) := fun m => .mapTtl m fun rr => p.newTtl rr.ttl
  exact editResponse_relayed happly

theorem withoutType_conveys (rtype : RecordType) (m : Message) : m.Conveys (withoutType rtype m) :=
  .filter m (·.rtype ≠ rtype) (·.rtype ≠ rtype)

theorem DropRespPlugin.execute_relayed : ctx.Relayed codes (execute ctx) := by
  refine ⟨rfl, fun m hm => ?_⟩
  rw [execute, Context.setResponse_response] at hm
  cases hm

theorem LocalPlugin.execute_relayed {p : LocalPlugin} (hp : p.Relays codes) :
    ctx.Relayed codes (p.execute env ctx) := by
  cases p with
  | reject rcode =>
    refine ⟨rfl, fun m hm => .inr ?_⟩
    cases Option.some.inj hm
    exact ⟨hp, rfl, rfl, rfl⟩
  | queryAcl p =>
    rw [execute, QueryAclPlugin.execute]
    split
    · exact .of_same (.refl ctx)
    · exact ⟨rfl, fun m hm => .inr (bare_refused hp hm)⟩
  | ttl p => exact p.execute_relayed
  | preferIpv4 => exact editResponse_relayed (withoutType_conveys .AAAA)
  | preferIpv6 => exact editResponse_relayed (withoutType_conveys .A)
  | dualSelector preference => exact editResponse_relayed (DualSelectorPlugin.select_conveys preference)
  | dropResp => exact DropRespPlugin.execute_relayed
  | blackhole | arbitrary | hosts | redirect => exact hp.elim
  | _ => exact .of_same (execute_annotates env rfl ctx)

/-- The context is as it was, or has an upstream's reply to its request. -/
def Replied (env : Env) (ctx ctx' : Context) : Prop :=
  ctx' = ctx ∨ ∃ n addr m, (ForwardPlugin.forwardQuery env n ctx.request addr).1 = .ok m ∧
    ctx' = ctx.setResponse (some m)

namespace ForwardPlugin

variable {I : World → Prop}

theorem executeSequential_replied (i rounds : Nat) (lastError : Option Error) :
    (executeSequential env i ctx.request rounds lastError ctx).Within I (fun w w' => w'.caches = w.caches)
      (Replied env ctx) (fun _ => True) := by
  induction rounds generalizing lastError with
  | zero => exact Run.within_fail (.inl rfl) trivial
  | succ rounds ih =>
    refine Proc.Within.bind (Q := fun r => ∀ m, r = .ok m →
      ∃ n addr, (forwardQuery env n ctx.request addr).1 = .ok m) ?_ ?_
    · exact Proc.within_atomic.mpr fun w _ => ⟨attempt_caches env i ctx.request w, fun _ => attempt_eq_ok⟩
    · intro r hr
      cases r with
      | ok response =>
        obtain ⟨n, addr, hreply⟩ := hr response rfl
        exact Run.within_done (.inr ⟨n, addr, response, hreply, rfl⟩)
      | error e => exact ih (some e)

theorem execute_replied (i : Nat) :
    (execute env i ctx).Within I (fun w w' => w'.caches = w.caches) (Replied env ctx) (fun _ => True) := by
  rw [execute]
  split
  · exact Run.within_done (.inl rfl)
  · refine Proc.Within.bind (Q := fun _ => True) (Proc.within_atomic.mpr fun w _ => ⟨rfl, trivial⟩) fun p _ => ?_
    refine Proc.Within.bind (Q := fun r : Option Message => ∀ m, r = some m →
      ∃ n addr, (forwardQuery env n ctx.request addr).1 = .ok m) ?_ ?_
    · rw [race]
      split
      · exact Proc.within_atomic.mpr fun w _ => ⟨rfl, fun _ => executeConcurrent_eq_some⟩
      · exact fun m h => by cases h
    · intro r hr
      cases r with
      | some response =>
        obtain ⟨n, addr, hreply⟩ := hr response rfl
        exact Run.within_done (.inr ⟨n, addr, response, hreply, rfl⟩)
      | none => exact executeSequential_replied i _ none

end ForwardPlugin

/-! ### Caches and jobs -/

/-- Under each key the caches hold what is genuine for a request with this key. -/
def Coherent (env : Env) (codes : ResponseCode → Prop) (w : World) : Prop :=
  ∀ i key entry, (w.caches i).cache.peek key = some entry →
    ∃ request, CachePlugin.makeKey env request = some key ∧ Genuine env codes request entry.response

theorem coherent_of_shrinks {w w' : World} (hw : Coherent env codes w)
    (h : ∀ i, (w.caches i).Shrinks (w'.caches i)) : Coherent env codes w' :=
  fun i key entry hpeek => hw i key entry ((h i).mem hpeek)

theorem coherent_of_caches {w w' : World} (hw : Coherent env codes w) (h : w'.caches = w.caches) :
    Coherent env codes w' := by
  rwa [Coherent, h]

/-- What is known of a job under way: its request is the one it came with, and its response is genuine. -/
structure Job.Relayed (env : Env) (codes : ResponseCode → Prop) (job : Job) (ctx : Context) : Prop where
  request : ctx.request = job.request.message
  response : ∀ m, ctx.response = some m → Genuine env codes job.request.message m

variable {job : Job}

theorem CacheStep.coherent {w w' : World} (hstep : CacheStep env ctx w w') (hctx : job.Relayed env codes ctx)
    (hw : Coherent env codes w) : Coherent env codes w' := by
  intro i key entry hpeek
  obtain hshrinks | ⟨key', entry', hsome, hkey, hentry, hstored⟩ := hstep i
  · exact hw i key entry (hshrinks.mem hpeek)
  · by_cases heq : key = key'
    · subst heq
      rw [hstored.self] at hpeek
      cases hpeek
      obtain ⟨m, hm⟩ := Option.ne_none_iff_exists'.mp hsome
      rw [CachePlugin.storedEntry_eq_some hm] at hentry
      refine ⟨ctx.request, hkey, ?_⟩
      rw [(CachePlugin.entryFor_eq_some hentry.2).1, hctx.request]
      exact hctx.response m hm
    · obtain hsame | hnone := hstored.other key heq
      · exact hw i key entry (hsame.symm.trans hpeek)
      · rw [hnone] at hpeek
        cases hpeek

namespace Job.Relayed

theorem of_relayed {ctx' : Context} (h : job.Relayed env codes ctx) (hrelayed : ctx.Relayed codes ctx') :
    job.Relayed env codes ctx' := by
  refine ⟨hrelayed.request.trans h.request, fun m hm => ?_⟩
  obtain ⟨old, hold, hconveys⟩ | hbare := hrelayed.response m hm
  · exact (h.response old hold).conveys hconveys
  · exact .inl hbare

theorem of_replied {ctx' : Context} (h : job.Relayed env codes ctx) (hreplied : Replied env ctx ctx') :
    job.Relayed env codes ctx' := by
  obtain rfl | ⟨n, addr, m, hreply, rfl⟩ := hreplied
  · exact h
  · refine ⟨h.request, fun m' hm' => ?_⟩
    cases Option.some.inj hm'
    rw [h.request] at hreply
    exact .inr ⟨n, addr, _, m, rfl, hreply, .refl m⟩

/-- What a cache serves came from a request with the same key. -/
theorem executeCache (h : job.Relayed env codes ctx) (i : Nat) {w : World} (hw : Coherent env codes w) :
    job.Relayed env codes (Leaf.executeCache env i ctx w).1 := by
  rw [Leaf.executeCache]
  obtain heq | ⟨-, key, hkey, heq⟩ | ⟨-, key, entry, -, -, heq⟩ := CachePlugin.execute_cases env w.now ctx (w.caches i)
  · rw [heq]
    exact h
  · rw [heq]
    obtain ⟨-, hmiss | ⟨entry, ttl, hpeek, hserved⟩⟩ := (w.caches i).tryServeFromCache_cases w.now key ctx
    · rw [hmiss]
      exact ⟨h.request, h.response⟩
    · rw [hserved]
      refine ⟨h.request, fun m hm => ?_⟩
      cases Option.some.inj hm
      obtain ⟨request, hrequest, hgenuine⟩ := hw i key entry hpeek
      rw [h.request] at hkey
      exact (hgenuine.conveys (.served entry.response ttl _ _)).sameKey (hrequest.trans hkey.symm)
  · rw [heq]
    exact h

theorem refused (h : job.Relayed env codes ctx) (hrefused : codes .refused) :
    job.Relayed env codes ctx.setRefused :=
  ⟨h.request, fun _ hm => .inl (bare_refused hrefused hm)⟩

theorem controlFree (env : Env) (codes : ResponseCode → Prop) (job : Job) : ControlFree (job.Relayed env codes) where
  record := fun _ _ _ h => ⟨h.request, h.response⟩
  setFlag := fun _ _ h => ⟨h.request, h.response⟩
  remove := fun _ _ _ h => ⟨h.request, h.response⟩

theorem initial (job : Job) (now : Nat) :
    job.Relayed env codes (PluginHandler.initialContext now job.entry job.request) := by
  refine ⟨PluginHandler.initialContext_request .., fun m hm => ?_⟩
  rw [PluginHandler.initialContext_response] at hm
  cases hm

theorem unanswered (job : Job) : job.Relayed env codes (Context.new job.request.message) := by
  refine ⟨rfl, fun m hm => ?_⟩
  cases hm

end Job.Relayed

theorem Leaf.preserves_relayed {l : Leaf} (hl : l.Relays codes) (job : Job) :
    l.Preserves env (Coherent env codes) (fun _ w => Coherent env codes w) (job.Relayed env codes)
      (fun _ => True) := by
  intro ctx hctx
  cases l with
  | plain p => exact Run.within_done (hctx.of_relayed (LocalPlugin.execute_relayed hl))
  | cache i =>
    exact Run.within_step fun w hw =>
      ⟨(executeCache_effect (A := fun _ => True) i fun _ _ _ _ => trivial).1.coherent hctx hw,
        hctx.executeCache i hw⟩
  | rateLimit i =>
    refine Run.within_step fun w hw => ⟨coherent_of_caches hw rfl, ?_⟩
    have hrefused : ∀ event m, (ctx.record event).setRefused.response = some m → Bare codes m :=
      fun _ _ hm => bare_refused hl hm
    rw [executeRateLimit, RateLimitPlugin.execute]
    split
    · exact hctx
    · split
      · exact ⟨hctx.request, fun m hm => .inl (hrefused _ m hm)⟩
      · exact hctx
  | domainValidator i =>
    refine Run.within_step fun w hw => ⟨coherent_of_caches hw rfl, ?_⟩
    have hresult : ∀ result, job.Relayed env codes (DomainValidatorPlugin.handleResult result ctx) := by
      intro result
      cases result with
      | valid => exact hctx
      | invalid reason => exact hctx.refused hl
    rw [executeDomainValidator, DomainValidatorPlugin.execute]
    dsimp only
    split
    · exact hresult _
    · exact hresult _
  | reverseLookup i => exact hl.elim
  | forward i =>
    refine Proc.Within.mono (ForwardPlugin.execute_replied (I := Coherent env codes) i)
      (fun w w' hw hcaches => coherent_of_caches hw hcaches) fun r hr => ⟨hctx.of_replied hr.1, fun _ _ => trivial⟩
  | sleep duration => exact Run.within_step fun w hw => ⟨coherent_of_caches hw rfl, hctx⟩
  | downloader =>
    exact Proc.within_atomic.mpr fun w hw => ⟨coherent_of_caches hw rfl, hctx, fun _ _ => trivial⟩

end

variable {env : Env} {reg : Registry} {codes : ResponseCode → Prop}

theorem service_relayed (hreg : reg.All (Leaf.Relays codes)) (fuel : Nat) :
    (service env reg fuel).Keeps (Coherent env codes) (fun _ => True) fun job r => job.Relayed env codes r.2 := by
  refine service_keeps (Job.Relayed.controlFree env codes)
    (fun job _ name plugin hplugin => (hreg name plugin hplugin).mono fun l hl => l.preserves_relayed hl job)
    (fun job _ i ctx _ w hw => coherent_of_caches hw rfl) (fun job _ => Job.Relayed.initial job)
    (fun job _ => .unanswered job) (fun i key w hw => ?_) fun e w hw => ⟨?_, fun _ _ => trivial⟩
  · exact coherent_of_shrinks hw fun j => World.shrinks_setCache (CachePlugin.shrinks_finishTask _ _) j
  · exact coherent_of_shrinks hw (e.apply_shrinks w)

/-- In every run of a server that forwards, caches, selects and refuses, a response that a job gets is a refusal without records, the SERVFAIL for a request that nothing answered, or some of the records of an upstream's reply, in their order and with other TTLs, to a query that has the cache key of the job's request; and so is everything in the caches. -/
theorem relayed_of_run {ι : Type} [DecidableEq ι] (hreg : reg.All (Leaf.Relays codes)) (fuel : Nat) {w : World}
    (hw : Coherent env codes w) (events : List (Event ι Job Outside)) :
    Coherent env codes ((Pool.init w).run (service env reg fuel) events).shared ∧
      ∀ i job r response, ((Pool.init w).run (service env reg fuel) events).jobs i = some (job, .ret r) →
        r.answer = .ok response →
        response = { PluginHandler.defaultResponse with id := job.request.message.id } ∨
          Genuine env codes job.request.message response := by
  have hrun : ((Pool.init w).run (service env reg fuel) events).Holds (Coherent env codes) (fun _ => True)
      fun job r => job.Relayed env codes r.2 :=
    Pool.run_holds (service_relayed hreg fuel) (fun _ _ _ => trivial) (Pool.holds_init hw)
  refine ⟨hrun.shared, fun i job r response hjob hanswer => ?_⟩
  have hrelayed := hrun.result hjob
  rw [Outcome.answer_eq_ok hanswer, PluginHandler.finish, hrelayed.request]
  cases hresponse : r.2.response with
  | none => exact .inl rfl
  | some m =>
    refine .inr ((hrelayed.response m hresponse).conveys ?_)
    exact ⟨rfl, rfl, rfl, rfl, .refl _, .refl _, .refl _⟩

theorem coherent_fresh (env : Env) (codes : ResponseCode → Prop) : Coherent env codes World.fresh := by
  intro i key entry hpeek
  rw [show (World.fresh.caches i).cache.peek key = none from Lru.peek_empty _ _ _] at hpeek
  cases hpeek

theorem Registry.cachedForward_relays (codes : ResponseCode → Prop) :
    Registry.cachedForward.All (Leaf.Relays codes) := by
  have hcache : (Plugin.leaf (.cache 0)).All (Leaf.Relays codes) := .leaf trivial
  have hforward : (Plugin.leaf (.forward 0)).All (Leaf.Relays codes) := .leaf trivial
  intro name plugin hplugin
  rw [Registry.cachedForward, Registry.ofList, List.foldr_cons, List.foldr_cons, List.foldr_nil] at hplugin
  by_cases hname : name = "cache"
  · subst hname
    rw [AList.lookup_insert] at hplugin
    cases hplugin
    exact hcache
  · rw [AList.lookup_insert_ne hname] at hplugin
    by_cases hmain : name = "main"
    · subst hmain
      rw [AList.lookup_insert] at hplugin
      cases hplugin
      refine .sequence fun step hstep => ?_
      obtain rfl | hstep := List.mem_cons.mp hstep
      · exact hcache
      · rw [List.mem_singleton.mp hstep]
        exact hforward
    · rw [AList.lookup_insert_ne hmain] at hplugin
      cases hplugin

def Dns.Message.addressOfA : Message :=
  { Message.ask 0 "a." .A with qr := true, answers := [⟨"a.", .A, .IN, 300, .A 0⟩] }

/-- Two clients ask for one name in different letter case. -/
def askedInBothCases : List (Event Nat Job Outside) :=
  .start 0 (.client "main" (.new (.ask 7 "a." .A) .udp)) :: List.replicate 5 (.run 0) ++
    .start 1 (.client "main" (.new (.ask 8 "A." .A) .udp)) :: List.replicate 3 (.run 1)

/-- The second client is served what the upstream told the first. -/
theorem relayed_of_run_cached :
    ∃ (r : Outcome) (response : Message),
      ((Pool.init World.fresh).run (service (.answering (.ok .addressOfA)) .cachedForward 4)
        askedInBothCases).result 1 = some r ∧
      r.answer = .ok response ∧ r.2.getBool "response_from_cache" = some true ∧ response.answers ≠ [] ∧
      Genuine (.answering (.ok .addressOfA)) (· = .refused) (.ask 8 "A." .A) response := by
  have hgenuine := (relayed_of_run (Registry.cachedForward_relays (· = .refused)) 4
    (coherent_fresh (.answering (.ok .addressOfA)) _) askedInBothCases).2 1
  have hmessage : (((Pool.init World.fresh).run (service (.answering (.ok .addressOfA)) .cachedForward 4)
      askedInBothCases).jobs 1).map (fun job => job.1.request.message) = some (.ask 8 "A." .A) := by
    decide +kernel
  have hcheck : (((Pool.init World.fresh).run (service (.answering (.ok .addressOfA)) .cachedForward 4)
      askedInBothCases).result 1).map (fun r => (r.1.toBool, r.2.getBool "response_from_cache",
        r.2.response.map Message.answers)) = some (true, some true, some Message.addressOfA.answers) := by
    decide +kernel
  generalize (Pool.init World.fresh).run (service (.answering (.ok .addressOfA)) .cachedForward 4)
    askedInBothCases = P at hgenuine hmessage hcheck ⊢
  obtain ⟨⟨result, ctx⟩, hr, hcheck⟩ := Option.map_eq_some_iff.mp hcheck
  simp only [Prod.mk.injEq] at hcheck
  obtain ⟨hok, hcached, hanswers⟩ := hcheck
  obtain ⟨job, hjob⟩ := Pool.result_eq_some.mp hr
  rw [hjob, Option.map_some, Option.some_inj] at hmessage
  obtain ⟨m, hm, hanswers⟩ := Option.map_eq_some_iff.mp hanswers
  cases result with
  | error stop => cases hok
  | ok u =>
    have hne : (PluginHandler.finish ctx).answers ≠ [] := by
      rw [PluginHandler.finish, hm, Option.getD_some, hanswers]
      exact List.cons_ne_nil _ _
    have hend := hgenuine job _ _ hjob rfl
    rw [hmessage] at hend
    have hdefault : ¬PluginHandler.finish ctx = { PluginHandler.defaultResponse with id := 8 } := by
      intro heq
      rw [heq] at hne
      exact hne rfl
    exact ⟨(.ok u, ctx), PluginHandler.finish ctx, hr, rfl, hcached, hne, hend.resolve_left hdefault⟩

end Lazydns
