import Lazydns.Plugin.Background
import Lazydns.Property.Ttl

/-!
# Answers that are served after their TTL

With a `cache_ttl` a stored response has two lifetimes: its TTL, and its time in the cache. While both last it is served with what is left of the TTL; when the TTL is over it is served for five seconds at a time, with a refresh on its way; when the time in the cache is over it is gone. A refresh itself removes nothing.
-/

namespace Lazydns

open Dns Background

namespace StaleServing

/-! ### The law -/

/-- A cached response as an answer to a request, for so many seconds. -/
def served (response : Message) (ttl : Nat) (asked : Context) : Message :=
  { CachePlugin.updateTtls response ttl with
    id := asked.request.id
    questions := asked.request.questions }

/-- What a cache does with a response that it has held under a key from a time on, in milliseconds, when its `cache_ttl` is `L`. -/
structure Law (env : Env) (key : String) (response : Message) (t₀ L : Nat) (s : System) : Prop where
  fresh : ∀ asked, TtlLaw.Asking env key asked →
    s.now < t₀ + 1000 * min (CachePlugin.getMinTtl response) L →
      (s.cache.execute env s.now asked).1.response =
        some (served response (CachePlugin.getMinTtl response - (s.now - t₀) / 1000) asked)
  stale : ∀ asked, TtlLaw.Asking env key asked → HasHandler asked →
    t₀ + 1000 * CachePlugin.getMinTtl response ≤ s.now → s.now < t₀ + 1000 * L →
      (s.cache.execute env s.now asked).1.response = some (served response STALE_RESPONSE_TTL_SECS asked) ∧
        (s.execute env asked).Refreshing key
  gone : ∀ asked, TtlLaw.Asking env key asked → t₀ + 1000 * L ≤ s.now →
    (s.cache.execute env s.now asked).1.response = none
  queued : ∀ (i : Nat) (task : RefreshTask) (q : RefreshCoordinator),
    s.cache.spawned[i]? = some (.enqueue task) → task.key = key → s.cache.coordinator = some q →
      q.queue.length < q.capacity →
        System.Queued { s with cache := s.cache.runSpawned s.now i } key

/-- A store keeps what is under the key: it neither replaces the entry nor evicts it. -/
def Kept (key : String) (s : System) : Event → System → Prop
  | .execute ctx, s' => ctx.response ≠ none → s'.cache.cache.peek key = s.cache.cache.peek key
  | _, _ => True

/-! ### The entry over a run -/

variable {env : Env} {key : String} {s s' : System} {entry : CacheEntry} {L : Nat}

/-- The cache holds the entry, or the entry's time in the cache is over. -/
structure Holds (key : String) (entry : CacheEntry) (L : Nat) (s : System) : Prop where
  cacheTtl : s.cache.cacheTtl = some L
  stored : entry.cachedAt ≤ s.now
  peek : s.cache.cache.peek key = some entry ∨
    s.cache.cache.peek key = none ∧ entry.cachedAt + 1000 * L ≤ s.now

theorem expired_iff (hL : entry.cacheTtl = L) (hpos : 0 < L) {now : Nat} (hstored : entry.cachedAt ≤ now) :
    entry.isCacheExpired now = true ↔ entry.cachedAt + 1000 * L ≤ now := by
  rw [CacheEntry.isCacheExpired, Bool.or_eq_true, beq_iff_eq, decide_eq_true_iff, hL]
  omega

theorem peek_runSpawned {c : CachePlugin} (hkept : ∀ notBefore, .invalidate key notBefore ∉ c.spawned)
    (now i : Nat) : (c.runSpawned now i).cache.peek key = c.cache.peek key := by
  rw [CachePlugin.runSpawned]
  split
  · rfl
  · dsimp only
    split <;> rfl
  · rename_i key' notBefore hjob
    split
    · rfl
    · have hne : key ≠ key' := by
        rintro rfl
        exact hkept notBefore (List.mem_of_getElem? hjob)
      exact ShardedLruCache.peek_pop_of_ne _ _ hne

theorem Holds.of_peek (h : Holds key entry L s) {c : CachePlugin} (hcacheTtl : c.cacheTtl = s.cache.cacheTtl)
    (hpeek : c.cache.peek key = s.cache.cache.peek key) (running : List RefreshTask) :
    Holds key entry L { s with cache := c, running } where
  cacheTtl := hcacheTtl.trans h.cacheTtl
  stored := h.stored
  peek := by
    change c.cache.peek key = _ ∨ c.cache.peek key = _ ∧ _
    rw [hpeek]
    exact h.peek

theorem Holds.of_expired (h : Holds key entry L s) (hL : entry.cacheTtl = L) (hpos : 0 < L) {c : CachePlugin}
    (hcacheTtl : c.cacheTtl = s.cache.cacheTtl) (hpeek : c.cache.peek key = none)
    (hexpired : ∀ e, s.cache.cache.peek key = some e → e.isCacheExpired s.now = true) :
    Holds key entry L { s with cache := c } where
  cacheTtl := hcacheTtl.trans h.cacheTtl
  stored := h.stored
  peek := by
    refine .inr ⟨hpeek, ?_⟩
    rcases h.peek with hheld | hgone
    · exact (expired_iff hL hpos h.stored).mp (hexpired entry hheld)
    · exact hgone.2

theorem Holds.step {e : Event} (h : Holds key entry L s) (hL : entry.cacheTtl = L) (hpos : 0 < L)
    (htracked : Tracked key s) (hkept : Kept key s e s') (hstep : (machine env).step s e = some s') :
    Holds key entry L s' := by
  cases e with
  | elapse duration =>
    cases hstep
    refine ⟨h.cacheTtl, Nat.le_add_right_of_le h.stored, h.peek.imp id fun hgone => ⟨hgone.1, ?_⟩⟩
    exact Nat.le_add_right_of_le hgone.2
  | execute ctx =>
    cases hstep
    rcases CachePlugin.execute_cases env s.now ctx s.cache with
      heq | ⟨-, key', -, heq⟩ | ⟨hsome, key', e, -, -, heq⟩
    · rw [System.execute, heq]
      exact h
    · have hcacheTtl := (s.cache.tryServeFromCache_cases s.now key' ctx).1.cacheTtl
      rw [System.execute, heq]
      rcases s.cache.tryServeFromCache_peek s.now key' ctx key with hsame | ⟨rfl, hnone, e, he, hold⟩
      · exact h.of_peek hcacheTtl hsame s.running
      · refine h.of_expired hL hpos hcacheTtl hnone fun e' he' => ?_
        cases he.symm.trans he'
        rcases hold with hexpired | ⟨-, hsettings⟩
        · exact hexpired
        · rw [h.cacheTtl] at hsettings
          cases hsettings
    · have hpeek := hkept hsome
      rw [System.execute] at hpeek ⊢
      refine h.of_peek ?_ hpeek s.running
      rw [heq]
      rfl
  | cleanup =>
    cases hstep
    have hretain : (s.cache.cleanupExpired s.now).cache.peek key =
        (s.cache.cache.peek key).filter fun e => !e.isCacheExpired s.now := ShardedLruCache.peek_retain _ _ _
    cases hfilter : (s.cache.cache.peek key).filter fun e => !e.isCacheExpired s.now with
    | some e =>
      have heq := (Option.filter_eq_some_iff.mp hfilter).1
      exact @Holds.of_peek _ _ _ _ h (s.cache.cleanupExpired s.now) rfl (hretain.trans (hfilter.trans heq.symm)) s.running
    | none =>
      rw [Option.filter_eq_none_iff] at hfilter
      refine @Holds.of_expired _ _ _ _ h hL hpos (s.cache.cleanupExpired s.now) rfl (hretain.trans ?_) fun e he => ?_
      · rw [Option.filter_eq_none_iff]
        exact hfilter
      · simpa using hfilter e he
  | runSpawned i =>
    cases hstep
    exact h.of_peek (s.cache.shrinks_runSpawned s.now i).cacheTtl (peek_runSpawned htracked.kept s.now i)
      s.running
  | takeTask =>
    obtain ⟨⟨task, c⟩, htake, rfl⟩ := Option.map_eq_some_iff.mp hstep
    refine h.of_peek (CachePlugin.shrinks_takeTask htake).cacheTtl ?_ _
    rw [CachePlugin.takeTask] at htake
    split at htake
    · split at htake
      · cases htake
        rfl
      · cases htake
    · cases htake
  | finishTask i =>
    obtain ⟨task, -, rfl⟩ := Option.map_eq_some_iff.mp hstep
    exact @Holds.of_peek _ _ _ _ h (s.cache.finishTask task.key) rfl rfl _
  | shutdown =>
    cases hstep
    exact @Holds.of_peek _ _ _ _ h { s.cache with coordinator := none } rfl rfl _

/-! ### The lookups -/

section

variable {response : Message} {t₀ : Nat}

/-- A stored entry is served as the law says. -/
theorem Holds.law {now : Nat} (hnow : now = t₀)
    (h : Holds key (CacheEntry.new now response (CachePlugin.getMinTtl response) L) L s) (hpos : 0 < L)
    (hmax : L ≤ U32_MAX) (htracked : Tracked key s) : Law env key response t₀ L s := by
  subst hnow
  have hstored : now ≤ s.now := h.stored
  have hexecute : ∀ asked, TtlLaw.Asking env key asked →
      s.cache.execute env s.now asked = s.cache.tryServeFromCache s.now key asked := by
    intro asked hasking
    rw [CachePlugin.execute, hasking.key, hasking.unmarked, hasking.response]
    rfl
  have hexpired := fun now' => @expired_iff (CacheEntry.new now response (CachePlugin.getMinTtl response) L) L
    rfl hpos now'
  have hremaining : s.now < now + 1000 * L →
      (CacheEntry.new now response (CachePlugin.getMinTtl response) L).remainingTtl s.now =
        CachePlugin.getMinTtl response - (s.now - now) / 1000 := by
    intro hlive
    change CachePlugin.getMinTtl response - (s.now - now) / 1000 % (U32_MAX + 1) = _
    rw [Nat.mod_eq_of_lt (by omega)]
  constructor
  · intro asked hasking hlive
    have hpeek := h.peek.resolve_right fun hgone => by
      have hle : now + 1000 * L ≤ s.now := hgone.2
      omega
    rw [hexecute asked hasking, (CachePlugin.tryServeFromCache_hit hpeek hasking.foreground
      (show s.now - now < 1000 * min (CachePlugin.getMinTtl response) L by omega)).2, hremaining (by omega)]
    rfl
  · intro asked hasking hhandler hover hlive
    have hpeek := h.peek.resolve_right fun hgone => by
      have hle : now + 1000 * L ≤ s.now := hgone.2
      omega
    have hfresh : (CacheEntry.new now response (CachePlugin.getMinTtl response) L).isCacheExpired s.now =
        false := by
      rw [← Bool.not_eq_true, hexpired s.now hstored]
      exact Nat.not_le.mpr hlive
    have hzero := hremaining hlive
    rw [Nat.sub_eq_zero_of_le (by omega)] at hzero
    have hstale := CachePlugin.tryServeFromCache_stale hpeek hasking.foreground h.cacheTtl hfresh hzero
    refine ⟨?_, ?_⟩
    · rw [hexecute asked hasking, hstale]
      rfl
    · rw [System.execute, hexecute asked hasking, hstale]
      have hsame : SameRefreshes s.cache
          { s.cache with cache := (s.cache.cache.get key).2, stats := s.cache.stats.recordHit } :=
        ⟨rfl, rfl, rfl⟩
      exact ((htracked.of_same hsame s.now).spawn (fun _ => hasHandler_served hhandler _ _) s.now).2 rfl
  · intro asked hasking hover
    rw [hexecute asked hasking, CachePlugin.tryServeFromCache_expired asked ?_, hasking.response]
    intro e he
    rcases h.peek with hpeek | hgone
    · cases he.symm.trans hpeek
      exact (hexpired s.now hstored).mpr hover
    · rw [hgone.1] at he
      cases he
  · intro i task q hjob hkey hq hroom
    rw [CachePlugin.runSpawned, hjob]
    dsimp only
    rw [hq, Option.bind_some, CachePlugin.enqueue]
    by_cases hprocessing : task.key ∈ q.processing
    · rw [if_pos hprocessing]
      rcases htracked.processing q hq (hkey ▸ hprocessing) with ⟨q', hq', hin⟩ | hrunning
      · cases hq.symm.trans hq'
        exact .inl ⟨q, rfl, hin⟩
      · exact .inr hrunning
    · rw [if_neg hprocessing, if_pos hroom]
      exact .inl ⟨_, rfl, task, List.mem_append_right _ (List.mem_singleton_self _), hkey⟩

end

/-! ### Refreshes -/

/-- A step keeps every entry of every cache, or stores the response at hand. -/
def RefreshStep (env : Env) (w w' : World) : Prop :=
  ∀ i, (∀ key, (w'.caches i).cache.peek key = (w.caches i).cache.peek key) ∨
    ∃ ctx key entry, ctx.response ≠ none ∧ CachePlugin.makeKey env ctx.request = some key ∧
      (w.caches i).storedEntry w.now ctx = some entry ∧ (w.caches i).Stored (w'.caches i) key entry

theorem refreshStep_of_eq {w w' : World} (h : w'.caches = w.caches) : RefreshStep env w w' :=
  fun i => .inl fun key => by rw [h]

def Marked (ctx : Context) : Prop := ctx.getBool "background_lazy_refresh" = some true

theorem controlFree_marked : ControlFree Marked where
  record := fun _ _ _ h => h
  setFlag := fun ctx value h => by
    rw [Marked, Context.getBool, Context.setMetadata_metadata, Function.update_of_ne (by decide)]
    exact h
  remove := fun ctx key hkey h => by
    have hne : "background_lazy_refresh" ≠ key := by
      rintro rfl
      exact absurd hkey (by decide)
    rw [Marked, Context.getBool, Context.removeMetadata_metadata, Function.update_of_ne hne]
    exact h

theorem not_mem_keys {l : Leaf} (hl : l.Unreserved) : "background_lazy_refresh" ∉ l.keys := by
  have hset : ∀ name, "background_lazy_refresh" ≠ "domain_set_" ++ name ∧
      "background_lazy_refresh" ≠ "ip_set_" ++ name := by
    intro name
    constructor
    · intro h
      have hlist := congrArg String.toList h
      simp at hlist
    · intro h
      have hlist := congrArg String.toList h
      simp at hlist
  have hreserved : ∀ {name}, reservedKeys.contains name = false → "background_lazy_refresh" ≠ name := by
    rintro name hname rfl
    exact absurd hname (by decide)
  cases l with
  | plain p =>
    cases p with
    | mark p => simpa [Leaf.keys, LocalPlugin.keys] using hreserved hl
    | querySummary p => simpa [Leaf.keys, LocalPlugin.keys] using hreserved hl
    | geoIp p => simpa [Leaf.keys, LocalPlugin.keys] using hreserved hl
    | geoSite p => simpa [Leaf.keys, LocalPlugin.keys] using hreserved hl
    | domainSet name => simpa [Leaf.keys, LocalPlugin.keys] using (hset name).1
    | ipSetDataset name => simpa [Leaf.keys, LocalPlugin.keys] using (hset name).2
    | _ => simp [Leaf.keys, LocalPlugin.keys, RETURN_FLAG]
  | _ => simp [Leaf.keys, RETURN_FLAG]

/-- A marked request changes what a cache holds only by storing its response. -/
theorem executeCache_marked (i : Nat) {ctx : Context} (hmarked : Marked ctx) (w : World) :
    RefreshStep env w (Leaf.executeCache env i ctx w).2 := by
  intro j
  rw [Leaf.executeCache]
  dsimp only
  rw [World.setCache_caches]
  by_cases hj : j = i
  · subst hj
    rw [Function.update_self]
    rcases CachePlugin.execute_cases env w.now ctx (w.caches j) with
      heq | ⟨-, key, -, heq⟩ | ⟨hsome, key, entry, hkey, hentry, heq⟩
    · rw [heq]
      exact .inl fun _ => rfl
    · have hskip : (ctx.setMetadata "cache_checked" (.bool true)).getBool "background_lazy_refresh" =
          some true := hmarked
      rw [heq, CachePlugin.tryServeFromCache, hskip]
      exact .inl fun _ => rfl
    · rw [heq]
      exact .inr ⟨ctx, key, entry, hsome, hkey, hentry, CachePlugin.store_stored _ _ _⟩
  · rw [Function.update_of_ne hj]
    exact .inl fun _ => rfl

theorem preserves_marked {l : Leaf} (hl : l.Unreserved) :
    l.Preserves env (fun _ => True) (RefreshStep env) Marked (fun _ => True) := by
  intro ctx hmarked
  have heffect : (l.execute env ctx).Within (fun _ => True) (CacheStep env ctx)
      (LeafEffect env (fun _ => True) l ctx) (· ≠ .outOfFuel) :=
    Leaf.execute_within (fun _ _ _ _ _ _ => trivial) l ctx
  have hkept : ∀ {ctx' : Context}, ctx.Grows l.keys ctx' → Marked ctx' := by
    intro ctx' hgrows
    rw [Marked, Context.getBool, hgrows.metadata _ (not_mem_keys hl)]
    exact hmarked
  by_cases hcache : ∃ i, l = .cache i
  · obtain ⟨i, rfl⟩ := hcache
    refine Run.within_step fun w _ => ⟨executeCache_marked i hmarked w, ?_⟩
    exact hkept (Leaf.executeCache_effect (A := fun _ => True) i fun _ _ _ _ => trivial).2.grows
  · have hcaches := Leaf.execute_caches env (fun i heq => hcache ⟨i, heq⟩) ctx
    refine (heffect.and hcaches).mono (fun w w' _ h => refreshStep_of_eq h.2) fun r h => ⟨?_, fun _ _ => trivial⟩
    exact hkept h.1.1.grows

/-- Whatever becomes of a refresh, each of its steps keeps all entries or stores the response at hand. -/
theorem refresh_within (reg : Registry) (hreg : reg.All Leaf.Unreserved) (fuel i : Nat) {task : RefreshTask}
    (hmarked : task.message.id = REFRESH_ID) {p : Run}
    (hp : p = Job.body env reg fuel (.refresh i task) ∨ p = Job.cancelled (.refresh i task)) :
    Proc.Within (fun _ => True) (RefreshStep env) (fun _ => True) p := by
  have hfinish : ∀ r, Proc.Within (fun _ => True) (RefreshStep env) (fun _ => True)
      (Job.finishRefresh i task r) := by
    intro r
    refine Proc.within_atomic.mpr fun w _ => ⟨fun j => .inl fun key => ?_, trivial⟩
    dsimp only
    rw [World.setCache_caches]
    by_cases hj : j = i
    · subst hj
      rw [Function.update_self]
      rfl
    · rw [Function.update_of_ne hj]
  have hinit : ∀ now, Marked (PluginHandler.initialContext now task.entryName (.new task.message .udp)) := by
    intro now
    rw [Marked, PluginHandler.initialContext_background]
    exact if_pos hmarked
  have hrun : (PluginHandler.process env reg fuel task.entryName (.new task.message .udp)).Within
      (fun _ => True) (RefreshStep env) Marked (fun _ => True) :=
    PluginHandler.process_within controlFree_marked trivial
      (fun name plugin h => (hreg name plugin h).mono fun _ hl => preserves_marked hl)
      (fun j ctx _ w _ => refreshStep_of_eq rfl) (fun w _ => refreshStep_of_eq rfl) fuel hinit
  rcases hp with rfl | rfl
  · exact Proc.Within.bind hrun fun r _ => hfinish r
  · exact hfinish _

/-! ### Over whole runs -/

/-- From a fresh cache on, over any run in which the requests for the key bring the handler along and the entry is neither replaced nor evicted: the law holds of a stored response, and no refresh removes an entry. -/
theorem stale_serving {s₀ s s₂ : System} {before after : List Event} {ctx : Context} {response : Message}
    (hfresh : s₀.Fresh) (hsettings : s.cache.cacheTtl = some L) (hpos : 1 ≤ L) (hmax : L ≤ U32_MAX)
    (hbefore : (machine env).run s₀ before = some s) (hhandled : (machine env).Each (Handled env key) s₀ before)
    (hkey : CachePlugin.makeKey env ctx.request = some key) (hresponse : ctx.response = some response)
    (hunmarked : ctx.getBool "response_from_cache" = none) (hok : response.rcode = .noError)
    (hanswers : response.answers ≠ []) (hafter : (machine env).run (s.execute env ctx) after = some s₂)
    (hkept : (machine env).Each (fun s e s' => Handled env key s e s' ∧ Kept key s e s')
      (s.execute env ctx) after) :
    Law env key response s.now L s₂ ∧
      ∀ (reg : Registry) (fuel i : Nat) (task : RefreshTask), reg.All Leaf.Unreserved →
        task.message.id = REFRESH_ID → ∀ p ∈ [Job.body env reg fuel (.refresh i task),
          Job.cancelled (.refresh i task)], Proc.Within (fun _ => True) (RefreshStep env) (fun _ => True) p := by
  refine ⟨?_, fun reg fuel i task hreg hmarked p hp => ?_⟩
  · have htracked : Tracked key s :=
      Machine.run_keeps (fun _ _ _ h hh => h.step hh) (hfresh.tracked key) hhandled hbefore
    have hpositive := TtlLaw.getMinTtl_pos response
    let entry := CacheEntry.new s.now response (CachePlugin.getMinTtl response) L
    have hentry : s.cache.storedEntry s.now ctx = some entry := by
      rw [CachePlugin.storedEntry_eq_some hresponse]
      refine ⟨hunmarked, ?_⟩
      have hnonempty : response.answers.isEmpty = false := by
        rw [List.isEmpty_eq_false_iff]
        exact hanswers
      rw [CachePlugin.entryFor, hok, hnonempty, hsettings]
      simp only [ne_eq, not_true_eq_false, if_false, Bool.false_eq_true, hpositive, if_true]
      rfl
    have hexecute : (s.cache.execute env s.now ctx).2 = s.cache.store key entry := by
      rw [CachePlugin.execute_of_response env s.now s.cache (by rw [hresponse]; exact Option.some_ne_none _),
        hkey, hentry]
    have hholds : Holds key entry L (s.execute env ctx) := by
      rw [System.execute, hexecute]
      exact ⟨hsettings, le_rfl, .inl (CachePlugin.store_stored s.cache key entry).self⟩
    have htracked' : Tracked key (s.execute env ctx) := by
      rw [System.execute, hexecute]
      have hsame : SameRefreshes s.cache (s.cache.store key entry) := ⟨rfl, rfl, rfl⟩
      exact htracked.of_same hsame s.now
    obtain ⟨hholds', htracked''⟩ := Machine.run_keeps
      (I := fun t => Holds key entry L t ∧ Tracked key t)
      (fun _ _ _ h hh hstep => ⟨h.1.step rfl hpos h.2 hh.2 hstep, h.2.step hh.1 hstep⟩)
      ⟨hholds, htracked'⟩ hkept hafter
    exact hholds'.law rfl hpos hmax htracked''
  · refine refresh_within reg hreg fuel i hmarked ?_
    simpa using hp

/-! ### A response for one second, kept for ten -/

def shortReply : Message :=
  { Message.ask 7 "a." .A with qr := true, answers := [⟨"a.", .A, .IN, 1, .A 0⟩] }

/-- A cache with `cache_ttl: 10` and some refreshes in its queue. -/
def cacheWith (queue : List RefreshTask) : System where
  now := 0
  cache := { CachePlugin.new 16 with
    cacheTtl := some 10
    coordinator := some ⟨queue, 1000, queue.map RefreshTask.key⟩ }
  running := []

def clientContext (id : UInt16) : Context :=
  PluginHandler.initialContext 0 "main" (.new (.ask id "a." .A) .udp)

/-- The cache stores the reply; two seconds later the request is asked again, and the spawned job runs. -/
def storeAndAsk (asked : Context) : List Event :=
  [.execute (TtlLaw.answered shortReply), .elapse 2000, .execute asked, .elapse 10, .runSpawned 0]

theorem stale_serving_shortReply :
    ∃ s₂, (machine (.answering (.ok Message.new))).run ((cacheWith []).execute (.answering (.ok Message.new))
        (TtlLaw.answered shortReply)) [.elapse 2000] = some s₂ ∧
      Law (.answering (.ok Message.new)) "a.:1:1:0" shortReply 0 10 s₂ := by
  have hfresh : (cacheWith []).Fresh := ⟨rfl, rfl, fun q hq => by rw [← Option.some.inj hq]; rfl⟩
  refine ⟨_, rfl, (@stale_serving (.answering (.ok Message.new)) "a.:1:1:0" 10 (cacheWith []) (cacheWith [])
    _ [] [.elapse 2000] (TtlLaw.answered shortReply) shortReply hfresh rfl (by decide) (by decide) rfl trivial
    (by decide +kernel) rfl rfl rfl (by decide) rfl ?_).1⟩
  exact fun s hs => ⟨⟨trivial, trivial⟩, trivial⟩

def otherRefreshes (n : Nat) : List RefreshTask :=
  (List.range n).map fun i => ⟨"b" ++ toString i ++ ".:1:1:0", .ask 0xFFFF ("b" ++ toString i ++ ".") .A, "main"⟩

theorem length_otherRefreshes (n : Nat) : (otherRefreshes n).length = n := by
  rw [otherRefreshes, List.length_map, List.length_range]

theorem key_of_mem_otherRefreshes {n : Nat} {task : RefreshTask} (h : task ∈ otherRefreshes n) :
    task.key ≠ "a.:1:1:0" := by
  obtain ⟨i, -, rfl⟩ := List.mem_map.mp h
  intro hkey
  have hlist := congrArg String.toList hkey
  simp at hlist

/-- A refresh for which there is no room is dropped. -/
theorem runSpawned_full {c : CachePlugin} {i : Nat} {task : RefreshTask} {q : RefreshCoordinator}
    (hjob : c.spawned[i]? = some (.enqueue task)) (hq : c.coordinator = some q)
    (hfull : q.capacity ≤ q.queue.length) (now : Nat) :
    c.runSpawned now i = { c with
      spawned := c.spawned.eraseIdx i
      refreshingKeys := c.refreshingKeys.filter (· ≠ task.key) } := by
  have hnone : c.coordinator.bind (fun q => CachePlugin.enqueue q task) = none := by
    rw [hq, Option.bind_some, CachePlugin.enqueue]
    split
    · rfl
    · exact if_neg (Nat.not_lt.mpr hfull)
  rw [CachePlugin.runSpawned, hjob]
  dsimp only
  rw [hnone]

/-- The cache when the stale answer has gone out and the refresh been handed to the runtime. -/
def askedOnce (queue : List RefreshTask) : System :=
  let env := Env.answering (.ok Message.new)
  { ({ (cacheWith queue).execute env (TtlLaw.answered shortReply) with now := 2000 } : System).execute env
      (clientContext 7) with now := 2010 }

theorem askedOnce_coordinator (queue : List RefreshTask) :
    (askedOnce queue).cache.coordinator = some ⟨queue, 1000, queue.map RefreshTask.key⟩ :=
  (coordinator_execute _ _ _ _).trans (coordinator_execute _ _ _ _)

/-- The runtime finds no room for the refresh. -/
theorem askedOnce_runSpawned {queue : List RefreshTask} (hfull : 1000 ≤ queue.length)
    (hjob : (askedOnce queue).cache.spawned = [.enqueue ⟨"a.:1:1:0", .ask 0xFFFF "a." .A, "main"⟩])
    (hkeys : (askedOnce queue).cache.refreshingKeys = ["a.:1:1:0"]) :
    (askedOnce queue).cache.runSpawned 2010 0 =
      { (askedOnce queue).cache with spawned := [], refreshingKeys := [] } := by
  rw [runSpawned_full (i := 0) (by rw [hjob]; rfl) (askedOnce_coordinator queue) hfull, hjob, hkeys]
  rfl

theorem not_refreshing_of_queue {queue : List RefreshTask} (hqueue : ∀ task ∈ queue, task.key ≠ key) :
    ¬ System.Refreshing { askedOnce queue with
      cache := { (askedOnce queue).cache with spawned := [], refreshingKeys := [] } } key := by
  rintro (⟨task, hin, -⟩ | ⟨q, hq, task, hin, hkey⟩ | ⟨task, hin, -⟩)
  · cases hin
  · cases (askedOnce_coordinator queue).symm.trans hq
    exact hqueue task hin hkey
  · cases hin

/-- Without the handler in its context a stale hit drops the entry ten milliseconds later; a client's request with the id of refreshes is not served; and where the queue is full, a stale answer goes out with no refresh under way. -/
theorem stale_serving_exceptions :
    let env := Env.answering (.ok Message.new)
    (∃ s, (machine env).run (cacheWith []) (storeAndAsk (Context.new (.ask 7 "a." .A))) = some s ∧
      s.now = 2010 ∧ (s.cache.execute env s.now (clientContext 7)).1.response = none) ∧
    (∃ s, (machine env).run (cacheWith []) [.execute (TtlLaw.answered shortReply)] = some s ∧
      (s.cache.execute env s.now (clientContext 0xFFFF)).1.response = none) ∧
    ∃ s, (machine env).run (cacheWith (otherRefreshes 1000)) (storeAndAsk (clientContext 7)) = some s ∧
      s.now = 2010 ∧ ¬ s.Refreshing "a.:1:1:0" ∧
      (s.cache.execute env s.now (clientContext 7)).1.response =
        some (served shortReply 5 (clientContext 7)) := by
  have hfull : 1000 ≤ (otherRefreshes 1000).length := Nat.le_of_eq (length_otherRefreshes 1000).symm
  have hother : ∀ task ∈ otherRefreshes 1000, task.key ≠ "a.:1:1:0" := fun _ => key_of_mem_otherRefreshes
  refine ⟨⟨_, rfl, rfl, ?_⟩, ⟨_, rfl, ?_⟩, ⟨_, ?_, rfl, not_refreshing_of_queue hother, ?_⟩⟩
  · decide +kernel
  · decide +kernel
  · rw [← askedOnce_runSpawned hfull (by decide +kernel) (by decide +kernel)]
    rfl
  · decide +kernel

end StaleServing

end Lazydns
