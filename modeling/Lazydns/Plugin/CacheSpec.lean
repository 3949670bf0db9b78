import Lazydns.Plugin.Cache

/-!
# What one run of a cache does

Looking up, expiring, refreshing and cleaning up never put anything into a cache: `Shrinks` says that every entry left was there before. Only the store phase adds one, under the key of the request at hand. `execute_cases` lists all that a run of the plugin can do; everything else about the cache is derived from it.
-/

namespace Lazydns

open Dns

/-! ### The sharded table -/

namespace ShardedLruCache

variable (c : ShardedLruCache) (key : String)

@[simp] theorem setShard_count (i : Nat) (s : Lru String CacheEntry) :
    (c.setShard i s).count = c.count := rfl

theorem peek_setShard_self {key' : String} (hshard : c.shardFor key' = c.shardFor key)
    (s : Lru String CacheEntry) : (c.setShard (c.shardFor key) s).peek key' = s.peek key' := by
  change Lru.peek (Function.update c.shard (c.shardFor key) s (c.shardFor key')) key' = _
  rw [hshard, Function.update_self]

theorem peek_setShard_of_ne {key' : String} (hshard : c.shardFor key' ≠ c.shardFor key)
    (s : Lru String CacheEntry) : (c.setShard (c.shardFor key) s).peek key' = c.peek key' := by
  change Lru.peek (Function.update c.shard (c.shardFor key) s (c.shardFor key')) key' = _
  rw [Function.update_of_ne hshard]
  rfl

@[simp] theorem get_fst : (c.get key).1 = c.peek key := Lru.get_fst _ _

@[simp] theorem peek_get (key' : String) : (c.get key).2.peek key' = c.peek key' := by
  by_cases hshard : c.shardFor key' = c.shardFor key
  · rw [get, peek_setShard_self c key hshard, Lru.peek_get, ← hshard]
    rfl
  · exact peek_setShard_of_ne c key hshard _

theorem peek_push_self (e : CacheEntry) : (c.push key e).2.peek key = some e := by
  rw [push, peek_setShard_self c key rfl, Lru.push_snd]
  exact Lru.peek_put_self _ _ _

theorem peek_push_of_ne (e : CacheEntry) {key' : String} (hne : key' ≠ key) :
    (c.push key e).2.peek key' = c.peek key' ∨ (c.push key e).2.peek key' = none := by
  by_cases hshard : c.shardFor key' = c.shardFor key
  · rw [push, peek_setShard_self c key hshard, Lru.push_snd, peek, hshard]
    exact Lru.peek_put_of_ne _ e hne
  · exact .inl (peek_setShard_of_ne c key hshard _)

@[simp] theorem peek_pop_self : (c.pop key).peek key = none := by
  rw [pop, peek_setShard_self c key rfl]
  exact Lru.peek_pop_self _ _

theorem peek_pop_of_ne {key' : String} (hne : key' ≠ key) : (c.pop key).peek key' = c.peek key' := by
  by_cases hshard : c.shardFor key' = c.shardFor key
  · rw [pop, peek_setShard_self c key hshard, peek, hshard]
    exact Lru.peek_pop_of_ne _ hne
  · exact peek_setShard_of_ne c key hshard _

theorem peek_retain (keep : CacheEntry → Bool) :
    (c.retain keep).peek key = (c.peek key).filter keep := Lru.peek_retain _ _ _

theorem peek_clear : c.clear.peek key = none := Lru.peek_empty _ _ _

end ShardedLruCache

namespace CachePlugin

/-! ### Entries that were there before -/

/-- The same settings, and no entry that was not there before. -/
structure Shrinks (c c' : CachePlugin) : Prop where
  negativeCache : c'.negativeCache = c.negativeCache
  negativeTtl : c'.negativeTtl = c.negativeTtl
  cacheTtl : c'.cacheTtl = c.cacheTtl
  peek : ∀ key, c'.cache.peek key = c.cache.peek key ∨ c'.cache.peek key = none

namespace Shrinks

variable {c c' c'' : CachePlugin}

theorem refl (c : CachePlugin) : c.Shrinks c := ⟨rfl, rfl, rfl, fun _ => .inl rfl⟩

theorem trans (h : c.Shrinks c') (h' : c'.Shrinks c'') : c.Shrinks c'' where
  negativeCache := h'.negativeCache.trans h.negativeCache
  negativeTtl := h'.negativeTtl.trans h.negativeTtl
  cacheTtl := h'.cacheTtl.trans h.cacheTtl
  peek := fun key => by
    rcases h'.peek key with heq | hnone
    · rw [heq]
      exact h.peek key
    · exact .inr hnone

theorem mem (h : c.Shrinks c') {key : String} {e : CacheEntry} (hpeek : c'.cache.peek key = some e) :
    c.cache.peek key = some e := by
  rcases h.peek key with heq | hnone
  · rw [← heq]
    exact hpeek
  · rw [hnone] at hpeek
    cases hpeek

end Shrinks

variable {c : CachePlugin} {now : Nat} {key : String} {ctx : Context}

theorem shrinks_pop (c : CachePlugin) (key : String) :
    c.Shrinks { c with cache := c.cache.pop key } where
  negativeCache := rfl
  negativeTtl := rfl
  cacheTtl := rfl
  peek := fun key' => by
    by_cases hne : key' = key
    · rw [hne]
      exact .inr (ShardedLruCache.peek_pop_self _ _)
    · exact .inl (ShardedLruCache.peek_pop_of_ne _ _ hne)

theorem shrinks_spawnBackgroundRefresh (now : Nat) (ctx : Context) (key : String) (c : CachePlugin) :
    c.Shrinks (c.spawnBackgroundRefresh now ctx key) ∧
      (c.spawnBackgroundRefresh now ctx key).cache = c.cache := by
  rw [spawnBackgroundRefresh]
  split
  · exact ⟨.refl c, rfl⟩
  · dsimp only
    split
    · exact ⟨⟨rfl, rfl, rfl, fun _ => .inl rfl⟩, rfl⟩
    · exact ⟨⟨rfl, rfl, rfl, fun _ => .inl rfl⟩, rfl⟩

theorem shrinks_cleanupExpired (now : Nat) (c : CachePlugin) : c.Shrinks (c.cleanupExpired now) where
  negativeCache := rfl
  negativeTtl := rfl
  cacheTtl := rfl
  peek := fun key => by
    change (c.cache.retain _).peek key = _ ∨ (c.cache.retain _).peek key = none
    rw [ShardedLruCache.peek_retain]
    cases c.cache.peek key with
    | none => exact .inr rfl
    | some e =>
      rw [Option.filter_some]
      split
      · exact .inl rfl
      · exact .inr rfl

theorem shrinks_clear (c : CachePlugin) : c.Shrinks c.clear where
  negativeCache := rfl
  negativeTtl := rfl
  cacheTtl := rfl
  peek := fun key => .inr (ShardedLruCache.peek_clear c.cache key)

theorem shrinks_runSpawned (now i : Nat) (c : CachePlugin) : c.Shrinks (c.runSpawned now i) := by
  rw [runSpawned]
  split
  · exact .refl c
  · dsimp only
    split
    · exact ⟨rfl, rfl, rfl, fun _ => .inl rfl⟩
    · exact ⟨rfl, rfl, rfl, fun _ => .inl rfl⟩
  · rename_i key notBefore _
    split
    · exact .refl c
    · have hpop := shrinks_pop c key
      exact ⟨rfl, rfl, rfl, hpop.peek⟩

theorem shrinks_takeTask {task : RefreshTask} {c c' : CachePlugin}
    (h : c.takeTask = some (task, c')) : c.Shrinks c' := by
  rw [takeTask] at h
  split at h
  · split at h
    · cases h
      exact ⟨rfl, rfl, rfl, fun _ => .inl rfl⟩
    · cases h
  · cases h

theorem shrinks_finishTask (key : String) (c : CachePlugin) : c.Shrinks (c.finishTask key) :=
  ⟨rfl, rfl, rfl, fun _ => .inl rfl⟩

/-! ### The lookup -/

def servedContext (ctx : Context) (entry : CacheEntry) (ttl : Nat) : Context :=
  (serveCachedResponse (ctx.setMetadata "cache_checked" (.bool true)) entry ttl).setMetadata RETURN_FLAG
    (.bool true)

/-- A lookup serves an entry that is in the table under the key, or only leaves its mark. -/
theorem tryServeFromCache_cases (now : Nat) (key : String) (ctx : Context) (c : CachePlugin) :
    c.Shrinks (c.tryServeFromCache now key ctx).2 ∧
      ((c.tryServeFromCache now key ctx).1 = ctx.setMetadata "cache_checked" (.bool true) ∨
        ∃ entry ttl, c.cache.peek key = some entry ∧
          (c.tryServeFromCache now key ctx).1 = servedContext ctx entry ttl) := by
  have hget : ∀ stats, c.Shrinks { c with cache := (c.cache.get key).2, stats } := fun stats =>
    ⟨rfl, rfl, rfl, fun key' => .inl (ShardedLruCache.peek_get _ _ _)⟩
  have hpop : ∀ stats, c.Shrinks { c with cache := (c.cache.get key).2.pop key, stats } := by
    intro stats
    have h := (hget stats).trans (shrinks_pop _ key)
    exact ⟨rfl, rfl, rfl, h.peek⟩
  rw [tryServeFromCache]
  split
  · exact ⟨.refl c, .inl rfl⟩
  · have hpeek := ShardedLruCache.get_fst c.cache key
    split
    · rename_i cache heq
      have hcache : cache = (c.cache.get key).2 := by rw [heq]
      subst hcache
      exact ⟨hget _, .inl rfl⟩
    · rename_i entry cache heq
      have hcache : cache = (c.cache.get key).2 := by rw [heq]
      subst hcache
      rw [heq] at hpeek
      rw [serveEntry]
      dsimp only
      split
      · exact ⟨hpop _, .inl rfl⟩
      · split
        · split
          · exact ⟨(hget _).trans (shrinks_spawnBackgroundRefresh _ _ _ _).1,
              .inr ⟨entry, _, hpeek.symm, rfl⟩⟩
          · exact ⟨hpop _, .inl rfl⟩
        · refine ⟨?_, .inr ⟨entry, _, hpeek.symm, rfl⟩⟩
          split
          · exact (hget _).trans (shrinks_spawnBackgroundRefresh _ _ _ _).1
          · exact hget _

/-- Until the entry's time in the cache and its TTL are over, a lookup serves it. -/
theorem tryServeFromCache_hit {entry : CacheEntry} (hpeek : c.cache.peek key = some entry)
    (hbackground : ctx.getBool "background_lazy_refresh" = none)
    (hlive : now - entry.cachedAt < 1000 * min entry.ttl entry.cacheTtl) :
    0 < entry.remainingTtl now ∧
      (c.tryServeFromCache now key ctx).1 = servedContext ctx entry (entry.remainingTtl now) := by
  have hremaining : 0 < entry.remainingTtl now := by
    have hmod := Nat.mod_le ((now - entry.cachedAt) / 1000) (U32_MAX + 1)
    rw [CacheEntry.remainingTtl]
    omega
  have hexpired : entry.isCacheExpired now = false := by
    rw [CacheEntry.isCacheExpired, Bool.or_eq_false_iff, beq_eq_false_iff_ne, decide_eq_false_iff_not]
    omega
  have hget : c.cache.get key = (some entry, (c.cache.get key).2) :=
    Prod.ext ((ShardedLruCache.get_fst _ _).trans hpeek) rfl
  have hmark : (ctx.setMetadata "cache_checked" (.bool true)).getBool "background_lazy_refresh" = none :=
    hbackground
  refine ⟨hremaining, ?_⟩
  rw [tryServeFromCache, hmark, hget]
  dsimp only [Option.isSome_none, Bool.false_eq_true, if_false]
  rw [serveEntry, hexpired]
  simp only [Bool.false_eq_true, if_false, if_neg (Nat.pos_iff_ne_zero.mp hremaining)]
  rfl

/-- With a `cache_ttl` an entry whose TTL alone is over is served once more, and a refresh asked for. -/
theorem tryServeFromCache_stale {entry : CacheEntry} {L : Nat} (hpeek : c.cache.peek key = some entry)
    (hbackground : ctx.getBool "background_lazy_refresh" = none) (hcacheTtl : c.cacheTtl = some L)
    (hlive : entry.isCacheExpired now = false) (hremaining : entry.remainingTtl now = 0) :
    c.tryServeFromCache now key ctx =
      (servedContext ctx entry STALE_RESPONSE_TTL_SECS,
        { c with cache := (c.cache.get key).2, stats := c.stats.recordHit }.spawnBackgroundRefresh now
          (serveCachedResponse (ctx.setMetadata "cache_checked" (.bool true)) entry STALE_RESPONSE_TTL_SECS)
          key) := by
  have hget : c.cache.get key = (some entry, (c.cache.get key).2) :=
    Prod.ext ((ShardedLruCache.get_fst _ _).trans hpeek) rfl
  have hmark : (ctx.setMetadata "cache_checked" (.bool true)).getBool "background_lazy_refresh" = none :=
    hbackground
  rw [tryServeFromCache, hmark, hget]
  dsimp only [Option.isSome_none, Bool.false_eq_true, if_false]
  rw [serveEntry, hlive]
  simp only [Bool.false_eq_true, if_false, hremaining, if_true, hcacheTtl]
  rfl

theorem tryServeFromCache_expired (ctx : Context)
    (hpeek : ∀ entry, c.cache.peek key = some entry → entry.isCacheExpired now = true) :
    (c.tryServeFromCache now key ctx).1.response = ctx.response := by
  have hfst := ShardedLruCache.get_fst c.cache key
  rw [tryServeFromCache]
  split
  · rfl
  · split
    · rfl
    · rename_i entry cache heq
      rw [heq] at hfst
      rw [serveEntry, hpeek entry hfst.symm]
      rfl

/-- A lookup leaves every entry in the table, but for one under its own key that is too old. -/
theorem tryServeFromCache_peek (now : Nat) (key : String) (ctx : Context) (c : CachePlugin)
    (key' : String) :
    (c.tryServeFromCache now key ctx).2.cache.peek key' = c.cache.peek key' ∨
      key' = key ∧ (c.tryServeFromCache now key ctx).2.cache.peek key' = none ∧
        ∃ entry, c.cache.peek key = some entry ∧
          (entry.isCacheExpired now = true ∨ entry.remainingTtl now = 0 ∧ c.cacheTtl = none) := by
  have hfst := ShardedLruCache.get_fst c.cache key
  have hget : (c.cache.get key).2.peek key' = c.cache.peek key' := ShardedLruCache.peek_get _ _ _
  have hpop : ((c.cache.get key).2.pop key).peek key' = c.cache.peek key' ∨
      key' = key ∧ ((c.cache.get key).2.pop key).peek key' = none := by
    by_cases hkey : key' = key
    · subst hkey
      exact .inr ⟨rfl, ShardedLruCache.peek_pop_self _ _⟩
    · exact .inl ((ShardedLruCache.peek_pop_of_ne _ _ hkey).trans hget)
  rw [tryServeFromCache]
  split
  · exact .inl rfl
  · split
    · rename_i cache heq
      rw [heq] at hget
      exact .inl hget
    · rename_i entry cache heq
      rw [heq] at hget hpop hfst
      have hold : entry.isCacheExpired now = true ∨ entry.remainingTtl now = 0 ∧ c.cacheTtl = none →
          (cache.pop key).peek key' = c.cache.peek key' ∨ key' = key ∧ (cache.pop key).peek key' = none ∧
            ∃ entry, c.cache.peek key = some entry ∧
              (entry.isCacheExpired now = true ∨ entry.remainingTtl now = 0 ∧ c.cacheTtl = none) :=
        fun h => hpop.imp id fun hnone => ⟨hnone.1, hnone.2, entry, hfst.symm, h⟩
      rw [serveEntry]
      dsimp only
      split
      · rename_i hexpired
        exact hold (.inl hexpired)
      · split
        · rename_i hremaining
          split
          · rw [(shrinks_spawnBackgroundRefresh _ _ _ _).2]
            exact .inl hget
          · rename_i hsettings
            exact hold (.inr ⟨hremaining, hsettings⟩)
        · split
          · rw [(shrinks_spawnBackgroundRefresh _ _ _ _).2]
            exact .inl hget
          · exact .inl hget

/-! ### The store -/

/-- The settings stay, and the entry is stored under the key; another key keeps its entry or is evicted. -/
structure Stored (c c' : CachePlugin) (key : String) (entry : CacheEntry) : Prop where
  negativeCache : c'.negativeCache = c.negativeCache
  negativeTtl : c'.negativeTtl = c.negativeTtl
  cacheTtl : c'.cacheTtl = c.cacheTtl
  self : c'.cache.peek key = some entry
  other : ∀ key', key' ≠ key →
    c'.cache.peek key' = c.cache.peek key' ∨ c'.cache.peek key' = none

theorem store_stored (c : CachePlugin) (key : String) (entry : CacheEntry) :
    c.Stored (c.store key entry) key entry where
  negativeCache := rfl
  negativeTtl := rfl
  cacheTtl := rfl
  self := ShardedLruCache.peek_push_self _ _ _
  other := fun _ hne => ShardedLruCache.peek_push_of_ne _ _ _ hne

theorem Stored.again {c c' c'' : CachePlugin} {key : String} {entry : CacheEntry}
    (h : c.Stored c' key entry) (h' : c'.Stored c'' key entry) : c.Stored c'' key entry where
  negativeCache := h'.negativeCache.trans h.negativeCache
  negativeTtl := h'.negativeTtl.trans h.negativeTtl
  cacheTtl := h'.cacheTtl.trans h.cacheTtl
  self := h'.self
  other := fun key' hne => by
    rcases h'.other key' hne with heq | hnone
    · rw [heq]
      exact h.other key' hne
    · exact .inr hnone

theorem Stored.entryFor {c c' : CachePlugin} {key : String} {entry : CacheEntry}
    (h : c.Stored c' key entry) (now : Nat) (response : Message) :
    c'.entryFor now response = c.entryFor now response := by
  rw [CachePlugin.entryFor, CachePlugin.entryFor, h.negativeCache, h.negativeTtl, h.cacheTtl]

theorem entryFor_eq_some {response : Message} {entry : CacheEntry} (h : c.entryFor now response = some entry) :
    entry.response = response ∧ entry.cachedAt = now ∧ entry.cacheTtl = c.cacheTtl.getD entry.ttl := by
  rw [entryFor] at h
  split at h
  · split at h
    · cases h
      exact ⟨rfl, rfl, rfl⟩
    · cases h
  · split at h
    · cases h
    · dsimp only at h
      split at h
      · cases h
        exact ⟨rfl, rfl, rfl⟩
      · cases h

/-- When and what a cache stores for a context. -/
def storedEntry (now : Nat) (ctx : Context) (c : CachePlugin) : Option CacheEntry :=
  if (ctx.getBool "response_from_cache").isSome then none else ctx.response.bind (c.entryFor now)

theorem Stored.storedEntry {c c' : CachePlugin} {key : String} {entry : CacheEntry}
    (h : c.Stored c' key entry) (now : Nat) (ctx : Context) :
    c'.storedEntry now ctx = c.storedEntry now ctx := by
  rw [CachePlugin.storedEntry, CachePlugin.storedEntry]
  congr 2
  exact funext fun response => h.entryFor now response

theorem tryStoreResponse_eq (now : Nat) (key : String) (ctx : Context) (c : CachePlugin) :
    c.tryStoreResponse now key ctx =
      match c.storedEntry now ctx with
      | some entry => c.store key entry
      | none => c := by
  rw [tryStoreResponse, storedEntry]
  split
  · rfl
  · rfl

theorem storedEntry_eq_some {response : Message} {entry : CacheEntry} (hresponse : ctx.response = some response) :
    c.storedEntry now ctx = some entry ↔
      ctx.getBool "response_from_cache" = none ∧ c.entryFor now response = some entry := by
  rw [storedEntry, hresponse]
  cases ctx.getBool "response_from_cache" with
  | none => simp
  | some marked => simp

/-- With a response at hand a cache stores what it should, and leaves the context alone. -/
theorem execute_of_response (env : Env) (now : Nat) (c : CachePlugin) (hresponse : ctx.response ≠ none) :
    c.execute env now ctx =
      (ctx, match makeKey env ctx.request, c.storedEntry now ctx with
        | some key, some entry => c.store key entry
        | _, _ => c) := by
  rw [execute]
  cases makeKey env ctx.request with
  | none => rfl
  | some key =>
    have hsome : ctx.response.isNone = false := by
      cases hresp : ctx.response with
      | none => exact absurd hresp hresponse
      | some response => rfl
    dsimp only
    rw [hsome, tryStoreResponse_eq]
    split
    · rename_i hmarked
      rw [storedEntry, if_pos hmarked]
    · cases c.storedEntry now ctx <;> rfl

/-- All that a run of a cache can do: nothing, a lookup, or a store. -/
theorem execute_cases (env : Env) (now : Nat) (ctx : Context) (c : CachePlugin) :
    c.execute env now ctx = (ctx, c) ∨
    (ctx.response = none ∧ ∃ key, makeKey env ctx.request = some key ∧
      c.execute env now ctx = c.tryServeFromCache now key ctx) ∨
    (ctx.response ≠ none ∧ ∃ key entry, makeKey env ctx.request = some key ∧
      c.storedEntry now ctx = some entry ∧ c.execute env now ctx = (ctx, c.store key entry)) := by
  rw [execute]
  cases hkey : makeKey env ctx.request with
  | none => exact .inl rfl
  | some key =>
    dsimp only
    split
    · exact .inl rfl
    · split
      · rename_i hnone
        exact .inr (.inl ⟨Option.isNone_iff_eq_none.mp hnone, key, rfl, rfl⟩)
      · rename_i hsome
        rw [tryStoreResponse_eq]
        cases hentry : c.storedEntry now ctx with
        | none => exact .inl rfl
        | some entry =>
          refine .inr (.inr ⟨fun hnone => hsome ?_, key, entry, rfl, rfl, rfl⟩)
          rw [hnone]
          rfl

end CachePlugin

end Lazydns
