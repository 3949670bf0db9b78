import Lazydns.Server.Service
import Lazydns.Server.Transport

/-!
# What the id and the transport of a request decide

The id should decide nothing but the id of the answer. It does decide one thing: the value that marks a background refresh makes every cache pass the request by. For all other ids, and where both ids are the mark, two requests are handled alike. The four transports that know their client agree on every client policy.
-/

namespace Lazydns

open Dns

/-! ### Ids -/

def RequestContext.withId (req : RequestContext) (id : UInt16) : RequestContext :=
  { req with message := { req.message with id } }

/-- Two requests are handled alike from a state: the same answer or error but for ids, and shared states afterwards that agree but for ids, statistics included. -/
structure HandledAlike (env : Env) (reg : Registry) (fuel : Nat) (entry : String) (w : World)
    (req req' : RequestContext) : Prop where
  answer : ((PluginHandler.handle env reg fuel entry req).run w).1.map (Message.view fun _ => 0) =
    ((PluginHandler.handle env reg fuel entry req').run w).1.map (Message.view fun _ => 0)
  state : World.Same (fun _ => 0) Eq ((PluginHandler.handle env reg fuel entry req).run w).2
    ((PluginHandler.handle env reg fuel entry req').run w).2

/-- A registry whose only plugin is a cache. -/
def Registry.cacheOnly : Registry := Registry.ofList [("cache", .leaf (.cache 0))]

/-- In an empty cache every lookup misses, and one for a background refresh is not even counted. -/
theorem fresh_execute (env : Env) {ctx : Context} (hquestions : ctx.request.questions ≠ [])
    (hresponse : ctx.response = none) (hcached : ctx.metadata "response_from_cache" = none)
    (hchecked : ctx.metadata "cache_checked" = none) :
    ∃ cache, (CachePlugin.new 1024).execute env 0 ctx =
      (ctx.setMetadata "cache_checked" (.bool true),
        { CachePlugin.new 1024 with
          cache
          stats := ⟨0, if (ctx.getBool "background_lazy_refresh").isSome then 0 else 1, 0, 0⟩ }) := by
  have hkey : ∃ key, CachePlugin.makeKey env ctx.request = some key := by
    rw [CachePlugin.makeKey]
    cases hq : ctx.request.questions with
    | nil => exact absurd hq hquestions
    | cons q rest => exact ⟨_, rfl⟩
  obtain ⟨key, hkey⟩ := hkey
  have hmiss : (CachePlugin.new 1024).cache.get key = (none, (CachePlugin.new 1024).cache.get key |>.2) :=
    Prod.ext ((ShardedLruCache.get_fst _ _).trans (Lru.peek_empty _ _ _)) rfl
  have hbackground : (ctx.setMetadata "cache_checked" (.bool true)).getBool "background_lazy_refresh" =
      ctx.getBool "background_lazy_refresh" := rfl
  have hnew : (ctx.getBool "cache_checked") = none := by rw [Context.getBool, hchecked]
  have hfrom : (ctx.getBool "response_from_cache") = none := by rw [Context.getBool, hcached]
  rw [CachePlugin.execute, hkey, hresponse, hfrom]
  simp only [Option.isSome_none, Bool.false_eq_true, if_false, Option.isNone_none, if_true]
  rw [CachePlugin.tryServeFromCache, hnew, hbackground]
  split
  · exact ⟨_, rfl⟩
  · rw [hmiss]
    exact ⟨_, rfl⟩

theorem cacheOnly_misses (env : Env) {req : RequestContext} (hq : req.message.questions ≠ []) :
    (((PluginHandler.handle env .cacheOnly 2 "cache" req).run World.fresh).2.caches 0).stats.misses =
      if req.message.id = REFRESH_ID then 0 else 1 := by
  have hlookup : Registry.cacheOnly.lookup "cache" = some (.leaf (.cache 0)) := AList.lookup_insert _
  have hmeta : ∀ key, key ∉ PluginHandler.initialKeys →
      (PluginHandler.initialContext 0 "cache" req).metadata key = none := fun key hkey =>
    PluginHandler.initialContext_metadata 0 "cache" req hkey
  obtain ⟨cache, hexec⟩ := @fresh_execute env (PluginHandler.initialContext 0 "cache" req)
    (by rwa [PluginHandler.initialContext_request]) (PluginHandler.initialContext_response ..)
    (hmeta _ (by decide)) (hmeta _ (by decide))
  rw [PluginHandler.initialContext_background] at hexec
  have hnone := PluginHandler.initialContext_response 0 "cache" req
  rw [PluginHandler.handle_run, PluginHandler.process_run]
  change (((Run.andThen (PluginHandler.runEntry env .cacheOnly 2 "cache"
    (PluginHandler.initialContext 0 "cache" req)) _).run World.fresh).2.caches 0).stats.misses = _
  generalize PluginHandler.initialContext 0 "cache" req = ctx at hmeta hexec hnone ⊢
  have hentry : (PluginHandler.runEntry env .cacheOnly 2 "cache" ctx).run World.fresh =
      ((.ok (), ctx.setMetadata "cache_checked" (.bool true)), World.fresh.setCache 0
        ((CachePlugin.new 1024).execute env 0 ctx).2) := by
    rw [PluginHandler.runEntry, hlookup]
    change (Run.andThen (Run.step (Leaf.executeCache env 0 ctx)) _).run _ = _
    rw [Run.run_andThen_of_ok (Run.run_step _ _)]
    change (PluginHandler.gotoLoop _ _ _ ((CachePlugin.new 1024).execute env 0 ctx).1).run _ = _
    rw [show ((CachePlugin.new 1024).execute env 0 ctx).1 = _ from congrArg Prod.fst hexec,
      PluginHandler.gotoLoop, if_neg]
    · rfl
    · rw [Context.hasMetadata, Context.setMetadata_metadata, Function.update_of_ne (by decide),
        hmeta _ (by decide)]
      decide
  have hdone : (ctx.setMetadata "cache_checked" (.bool true)).hasResponse = false := by
    rw [Context.hasResponse, Context.setMetadata_response, hnone]
    rfl
  rw [Run.run_andThen_of_ok hentry, PluginHandler.postProcess, hdone]
  change ((CachePlugin.new 1024).execute env 0 ctx).2.stats.misses = _
  rw [hexec]
  by_cases hid : req.message.id = REFRESH_ID
  · simp [hid]
  · simp [hid]

/-- What a request's id decides: nothing, unless it has a question and one of the ids is the mark of a background refresh and the other is not. -/
theorem handledAlike_iff (req : RequestContext) (a b : UInt16) :
    (∀ env : Env, env.IdBlind (fun _ => 0) → ∀ reg fuel entry w,
      HandledAlike env reg fuel entry w (req.withId a) (req.withId b)) ↔
    (req.message.questions = [] ∨ (a = REFRESH_ID ↔ b = REFRESH_ID)) := by
  constructor
  · intro halike
    by_contra hcontra
    rw [not_or] at hcontra
    obtain ⟨hquestions, hiff⟩ := hcontra
    have henv : (Env.answering (.ok Message.new)).IdBlind (fun _ => 0) :=
      ⟨fun _ _ _ => rfl, fun _ _ _ _ _ _ => ⟨rfl, rfl⟩⟩
    have hsame := (halike _ henv .cacheOnly 2 "cache" World.fresh).state.caches 0
    have hmisses := congrArg (fun c : CachePlugin => c.stats.misses) hsame
    simp only [CachePlugin.view] at hmisses
    rw [@cacheOnly_misses _ (req.withId a) hquestions,
      @cacheOnly_misses _ (req.withId b) hquestions] at hmisses
    change (if a = REFRESH_ID then 0 else 1) = if b = REFRESH_ID then 0 else 1 at hmisses
    split at hmisses <;> split at hmisses <;> simp_all
  · intro hmark env henv reg fuel entry w
    have hmessage : (req.withId a).message.view (fun _ => 0) = (req.withId b).message.view fun _ => 0 := rfl
    have hclient : (req.withId a).clientInfo.map ClientInfo.ip =
        (req.withId b).clientInfo.map ClientInfo.ip := rfl
    have hinit : ∀ now, (PluginHandler.initialContext now entry (req.withId a)).Same (fun _ => 0)
        (PluginHandler.initialContext now entry (req.withId b)) :=
      fun now => PluginHandler.initialContext_same hmessage hclient hmark now entry
    have hsim := @PluginHandler.handle_sim env reg _ _ Eq henv limiterSim_eq fuel entry _ _ hinit
    have hrun := hsim.run (.refl (fun _ => rfl) w)
    exact ⟨hrun.1, hrun.2⟩

/-! ### The mark in a client's request -/

/-- A cache in front of a black hole. -/
def Registry.cachedBlackhole : Registry :=
  .ofList [("cache", .leaf (.cache 0)),
    ("main", .sequence none [.exec (.leaf (.cache 0)), .exec (.leaf (.plain (.blackhole ⟨[0], []⟩)))])]

/-- The state after a first query has filled the cache. -/
def World.warm : World :=
  ((PluginHandler.handle (.answering (.ok Message.new)) .cachedBlackhole 4 "main"
    (.new (.ask 1 "a." .A) .udp)).run World.fresh).2

/-- From a warm cache, a query with id 2 is a hit, and the same query with id 65535 is not even looked up. -/
theorem refresh_id_not_alike :
    ¬ HandledAlike (.answering (.ok Message.new)) .cachedBlackhole 4 "main" .warm
      ((RequestContext.new (.ask 1 "a." .A) .udp).withId 2)
      ((RequestContext.new (.ask 1 "a." .A) .udp).withId 0xFFFF) := by
  intro halike
  have hstats := congrArg (fun c : CachePlugin => c.stats) (halike.state.caches 0)
  revert hstats
  decide +kernel

end Lazydns
