import Lazydns.Plugin.CacheSpec
import Lazydns.Plugin.View

/-!
# Cache tables up to message ids

Two caches that hold the same entries under the same keys, their messages' ids aside, answer every lookup alike and stay such after any run of the plugin on contexts that look the same.
-/

namespace Lazydns

open Dns

variable {f : UInt16 → UInt16}

def CacheEntry.view (f : UInt16 → UInt16) (e : CacheEntry) : CacheEntry :=
  { e with response := e.response.view f }

theorem CacheEntry.eq_of_view {e e' : CacheEntry} (h : e.view f = e'.view f) :
    e' = { e with response := e'.response } ∧ e.response.view f = e'.response.view f := by
  cases e
  cases e'
  simp only [CacheEntry.view, CacheEntry.mk.injEq] at h
  obtain ⟨hresp, rfl, rfl, rfl, rfl, rfl⟩ := h
  exact ⟨rfl, hresp⟩

namespace ShardedLruCache

def view (f : UInt16 → UInt16) (c : ShardedLruCache) : ShardedLruCache :=
  { c with shard := fun i => (c.shard i).map (CacheEntry.view f) }

theorem view_eq_self (c : ShardedLruCache) : c.view id = c := by
  have hshard : (fun i => (c.shard i).map (CacheEntry.view id)) = c.shard :=
    funext fun i => Lru.map_id (c.shard i)
  rw [view, hshard]

theorem view_setShard (c : ShardedLruCache) (i : Nat) (s : Lru String CacheEntry) :
    (c.setShard i s).view f = (c.view f).setShard i (s.map (CacheEntry.view f)) := by
  simp only [view, setShard, ShardedLruCache.mk.injEq, true_and]
  funext j
  by_cases hj : j = i
  · subst hj
    rw [Function.update_self, Function.update_self]
  · rw [Function.update_of_ne hj, Function.update_of_ne hj]

theorem peek_view (c : ShardedLruCache) (key : String) :
    (c.view f).peek key = (c.peek key).map (CacheEntry.view f) :=
  Lru.peek_map _ _ _

theorem contains_view (c : ShardedLruCache) (key : String) :
    (c.view f).contains key = c.contains key :=
  Lru.contains_map _ _ _

theorem get_view (c : ShardedLruCache) (key : String) :
    (c.get key).2.view f = ((c.view f).get key).2 := by
  rw [get, view_setShard, ← Lru.map_get]
  rfl

theorem pop_view (c : ShardedLruCache) (key : String) : (c.pop key).view f = (c.view f).pop key := by
  rw [pop, view_setShard, ← Lru.map_pop]
  rfl

theorem push_view (c : ShardedLruCache) (key : String) (e : CacheEntry) :
    (c.push key e).2.view f = ((c.view f).push key (e.view f)).2 := by
  rw [push, view_setShard, Lru.push_snd, ← Lru.map_put, ← Lru.push_snd]
  rfl

theorem push_isSome_view (c : ShardedLruCache) (key : String) (e : CacheEntry) :
    (c.push key e).1.isSome = ((c.view f).push key (e.view f)).1.isSome := by
  have h := Lru.push_fst_map (CacheEntry.view f) (c.shard (c.shardFor key)) key e
  rw [← Option.isSome_map (f := Prod.fst), ← Option.isSome_map (f := Prod.fst)]
  exact congrArg Option.isSome h.symm

theorem peek_cases {c c' : ShardedLruCache} (h : c.view f = c'.view f) (key : String) :
    (c.peek key = none ∧ c'.peek key = none) ∨
      ∃ e e', c.peek key = some e ∧ c'.peek key = some e' ∧ e.view f = e'.view f := by
  have hpeek : (c.peek key).map (CacheEntry.view f) = (c'.peek key).map (CacheEntry.view f) := by
    rw [← peek_view, ← peek_view, h]
  cases hc : c.peek key with
  | none =>
    rw [hc, Option.map_none, eq_comm, Option.map_eq_none_iff] at hpeek
    exact .inl ⟨rfl, hpeek⟩
  | some e =>
    rw [hc, Option.map_some, eq_comm, Option.map_eq_some_iff] at hpeek
    obtain ⟨e', he', heq⟩ := hpeek
    exact .inr ⟨e, e', rfl, he', heq.symm⟩

end ShardedLruCache

namespace CachePlugin

def view (f : UInt16 → UInt16) (c : CachePlugin) : CachePlugin := { c with cache := c.cache.view f }

theorem view_eq_self (c : CachePlugin) : c.view id = c := by
  rw [view, ShardedLruCache.view_eq_self]

theorem eq_of_view {c c' : CachePlugin} (h : c.view f = c'.view f) :
    c' = { c with cache := c'.cache } ∧ c.cache.view f = c'.cache.view f := by
  cases c
  cases c'
  simp only [view, CachePlugin.mk.injEq] at h
  obtain ⟨hcache, rfl, rfl, rfl, rfl, rfl, rfl, rfl, rfl, rfl, rfl, rfl⟩ := h
  exact ⟨rfl, hcache⟩

section

variable {env : Env} {now : Nat} {key : String} {ctx ctx' : Context} {c c' : CachePlugin}

theorem makeKey_same {m m' : Message} (h : m.view f = m'.view f) : makeKey env m = makeKey env m' := by
  have hdo : hasDo m = hasDo m' := by rw [hasDo, hasDo, view_additional h]
  rw [makeKey, makeKey, keyFlags, keyFlags, view_questions h, view_ad h, view_cd h, hdo]

theorem serveCachedResponse_same (hctx : ctx.Same f ctx') {e e' : CacheEntry}
    (he : e.response.view f = e'.response.view f) (ttl : Nat) :
    (serveCachedResponse ctx e ttl).Same f (serveCachedResponse ctx' e' ttl) := by
  refine Context.Same.setMetadata (hctx.setResponse ?_) _ _
  rw [Lazydns.eq_of_view he]
  simp only [Message.view, updateTtls, Message.mapRecords, view_id hctx.request, hctx.questions,
    Option.map_some]

theorem spawnBackgroundRefresh_same (hctx : ctx.Same f ctx') (hc : c.view f = c'.view f) :
    (spawnBackgroundRefresh now ctx key c).view f =
      (spawnBackgroundRefresh now ctx' key c').view f := by
  obtain ⟨heq, hcache⟩ := eq_of_view hc
  rw [heq, spawnBackgroundRefresh, spawnBackgroundRefresh]
  dsimp only
  rw [hctx.getHandler (by decide), hctx.getString (by decide)]
  rw [Lazydns.eq_of_view hctx.request]
  split
  · simp only [view, hcache]
  · split
    · simp only [view, hcache]
    · simp only [view, hcache]

theorem serveEntry_same {e e' : CacheEntry} (hctx : ctx.Same f ctx') (hc : c.view f = c'.view f)
    (he : e.view f = e'.view f) :
    (serveEntry now key e ctx c).1.Same f (serveEntry now key e' ctx' c').1 ∧
      (serveEntry now key e ctx c).2.view f = (serveEntry now key e' ctx' c').2.view f := by
  obtain ⟨heq, hcache⟩ := eq_of_view hc
  generalize c'.cache = cache' at heq hcache
  subst heq
  obtain ⟨heq', hresp⟩ := CacheEntry.eq_of_view he
  have hpop : (c.cache.pop key).view f = (cache'.pop key).view f := by
    rw [ShardedLruCache.pop_view, ShardedLruCache.pop_view, hcache]
  have hhit : ({ c with stats := c.stats.recordHit } : CachePlugin).view f =
      ({ c with cache := cache', stats := c.stats.recordHit } : CachePlugin).view f := by
    simp only [view, hcache]
  have hserve : ∀ ttl, (serveCachedResponse ctx e ttl).Same f (serveCachedResponse ctx' e' ttl) :=
    serveCachedResponse_same hctx hresp
  have hexpired : e'.isCacheExpired now = e.isCacheExpired now := by
    rw [heq']
    rfl
  have hremaining : e'.remainingTtl now = e.remainingTtl now := by
    rw [heq']
    rfl
  have horiginal : e'.originalTtl = e.originalTtl := by rw [heq']
  rw [serveEntry, serveEntry, hexpired]
  dsimp only
  rw [hremaining, horiginal]
  split
  · exact ⟨hctx, by simp only [view, hpop]⟩
  · split
    · split
      · exact ⟨(hserve _).setMetadata _ _, spawnBackgroundRefresh_same (hserve _) hhit⟩
      · exact ⟨hctx, by simp only [view, hpop]⟩
    · refine ⟨(hserve _).setMetadata _ _, ?_⟩
      split
      · exact spawnBackgroundRefresh_same (hserve _) hhit
      · exact hhit

theorem tryServeFromCache_same (hctx : ctx.Same f ctx') (hquestions : ctx.request.questions ≠ [])
    (hc : c.view f = c'.view f) :
    (tryServeFromCache now key ctx c).1.Same f (tryServeFromCache now key ctx' c').1 ∧
      (tryServeFromCache now key ctx c).2.view f = (tryServeFromCache now key ctx' c').2.view f := by
  obtain ⟨heq, hcache⟩ := eq_of_view hc
  generalize c'.cache = cache' at heq hcache
  subst heq
  have hchecked : (ctx.setMetadata "cache_checked" (.bool true)).Same f
      (ctx'.setMetadata "cache_checked" (.bool true)) := hctx.setMetadata _ _
  have hget : (c.cache.get key).2.view f = (cache'.get key).2.view f := by
    rw [ShardedLruCache.get_view, ShardedLruCache.get_view, hcache]
  have hpair : c.cache.get key = (c.cache.peek key, (c.cache.get key).2) :=
    Prod.ext (ShardedLruCache.get_fst _ _) rfl
  have hpair' : cache'.get key = (cache'.peek key, (cache'.get key).2) :=
    Prod.ext (ShardedLruCache.get_fst _ _) rfl
  rw [tryServeFromCache, tryServeFromCache]
  dsimp only
  have hmark : ¬ (ctx.setMetadata "cache_checked" (.bool true)).Carried "background_lazy_refresh" := by
    rintro (heq | ⟨-, hnil⟩)
    · exact absurd heq (by decide)
    · exact hquestions hnil
  rw [hctx.getBool (by decide), hchecked.getBool_of_not_carried hmark]
  split
  · exact ⟨hchecked, hc⟩
  · rw [hpair, hpair']
    rcases ShardedLruCache.peek_cases hcache key with ⟨hp, hp'⟩ | ⟨e, e', hp, hp', he⟩
    · rw [hp, hp']
      exact ⟨hchecked, by simp only [view, hget]⟩
    · rw [hp, hp']
      exact serveEntry_same hchecked (by simp only [view, hget]) he

theorem store_same {e e' : CacheEntry} (hc : c.view f = c'.view f) (he : e.view f = e'.view f) :
    (c.store key e).view f = (c'.store key e').view f := by
  obtain ⟨heq, hcache⟩ := eq_of_view hc
  generalize c'.cache = cache' at heq hcache
  subst heq
  have hpush : (c.cache.push key e).2.view f = (cache'.push key e').2.view f := by
    rw [ShardedLruCache.push_view, ShardedLruCache.push_view, hcache, he]
  have hsome : (c.cache.push key e).1.isSome = (cache'.push key e').1.isSome := by
    rw [ShardedLruCache.push_isSome_view (f := f) c.cache, hcache, he,
      ← ShardedLruCache.push_isSome_view]
  have hcontains : c.cache.contains key = cache'.contains key := by
    rw [← ShardedLruCache.contains_view (f := f), hcache, ShardedLruCache.contains_view]
  rw [store, store]
  dsimp only
  rw [hsome, hcontains]
  simp only [view, hpush]

theorem entryFor_same (cache' : ShardedLruCache) {m m' : Message} (h : m.view f = m'.view f) :
    (c.entryFor now m).map (CacheEntry.view f) =
      (({ c with cache := cache' } : CachePlugin).entryFor now m').map (CacheEntry.view f) := by
  have hentry : ∀ ttl cacheTtl, (CacheEntry.new now m ttl cacheTtl).view f =
      (CacheEntry.new now m' ttl cacheTtl).view f := by
    intro ttl cacheTtl
    simp only [CacheEntry.view, CacheEntry.new, h]
  have hmin : getMinTtl m = getMinTtl m' := by rw [getMinTtl, getMinTtl, view_records h]
  rw [entryFor, entryFor, view_rcode h, view_answers h, hmin]
  dsimp only
  split
  · split
    · exact congrArg some (hentry _ _)
    · rfl
  · split
    · rfl
    · split
      · exact congrArg some (hentry _ _)
      · rfl

theorem tryStoreResponse_same (hctx : ctx.Same f ctx') (hc : c.view f = c'.view f) :
    (tryStoreResponse now key ctx c).view f = (tryStoreResponse now key ctx' c').view f := by
  rw [tryStoreResponse, tryStoreResponse, hctx.getBool (by decide)]
  split
  · exact hc
  · rcases hctx.response_cases with ⟨hr, hr'⟩ | ⟨m, m', hr, hr', hm⟩
    · rw [hr, hr']
      exact hc
    · rw [hr, hr']
      have hentry : (c.entryFor now m).map (CacheEntry.view f) =
          (c'.entryFor now m').map (CacheEntry.view f) := by
        rw [(eq_of_view hc).1]
        exact entryFor_same _ hm
      simp only [Option.bind_some]
      cases he : c.entryFor now m with
      | none =>
        rw [he, Option.map_none, eq_comm, Option.map_eq_none_iff] at hentry
        rw [hentry]
        exact hc
      | some e =>
        rw [he, Option.map_some, eq_comm, Option.map_eq_some_iff] at hentry
        obtain ⟨e', he', heq⟩ := hentry
        rw [he']
        exact store_same hc heq.symm

theorem execute_same (hctx : ctx.Same f ctx') (hc : c.view f = c'.view f) :
    (c.execute env now ctx).1.Same f (c'.execute env now ctx').1 ∧
      (c.execute env now ctx).2.view f = (c'.execute env now ctx').2.view f := by
  have hnone : ctx.response.isNone = ctx'.response.isNone := by
    have h := congrArg Bool.not hctx.hasResponse
    simpa [Context.hasResponse] using h
  rw [execute, execute, makeKey_same hctx.request, hctx.getBool (by decide), hnone]
  cases hkey : makeKey env ctx'.request with
  | none => exact ⟨hctx, hc⟩
  | some key =>
    have hquestions : ctx.request.questions ≠ [] := by
      intro hnil
      rw [makeKey, ← hctx.questions, hnil] at hkey
      cases hkey
    dsimp only
    split
    · exact ⟨hctx, hc⟩
    · split
      · exact tryServeFromCache_same hctx hquestions hc
      · exact ⟨hctx, tryStoreResponse_same hctx hc⟩

end

end CachePlugin

end Lazydns
