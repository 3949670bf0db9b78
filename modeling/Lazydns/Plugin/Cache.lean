import Lazydns.Lib.Lru
import Lazydns.Plugin.Env
import Lazydns.Plugin.Context

/-!
# The cache plugin

One `CachePlugin` and its two phases: a lookup while the request has no response, and a store once it has one. The sharded table, the entries with their three lifetimes, the statistics and the set of keys being refreshed are all state of the plugin; a background refresh is a job handed to the runtime. Time is in milliseconds, since the epoch of the system clock.
-/

namespace Lazydns

open Dns

def STALE_RESPONSE_TTL_SECS : Nat := 5

/-- `u32::MAX`. -/
def U32_MAX : Nat := 4294967295

/-! ### Entries -/

structure CacheEntry where
  response : Message
  cachedAt : Nat
  ttl : Nat
  cacheTtl : Nat
  originalTtl : Nat
  cachedAtUnix : Nat
  deriving DecidableEq, Repr

/-- The seconds of the system clock. -/
def unixNow (now : Nat) : Nat := now / 1000

namespace CacheEntry

def new (now : Nat) (response : Message) (ttl cacheTtl : Nat) : CacheEntry where
  response := response
  cachedAt := now
  ttl := ttl
  cacheTtl := cacheTtl
  originalTtl := ttl
  cachedAtUnix := unixNow now

def isCacheExpired (now : Nat) (e : CacheEntry) : Bool :=
  e.cacheTtl == 0 || decide (e.cacheTtl * 1000 ≤ now - e.cachedAt)

/-- `elapsed().as_secs() as u32` subtracted from the TTL, not below zero. -/
def remainingTtl (now : Nat) (e : CacheEntry) : Nat :=
  e.ttl - (now - e.cachedAt) / 1000 % (U32_MAX + 1)

end CacheEntry

/-! ### The sharded table -/

def SHARDS : Nat := 16

/-- The shards are indexed by number; only those below `count` are used. -/
structure ShardedLruCache where
  count : Nat
  shard : Nat → Lru String CacheEntry

namespace ShardedLruCache

def new (capacity : Nat) : ShardedLruCache :=
  let capacity := max capacity 1
  let count := min SHARDS capacity
  { count
    shard := fun i =>
      Lru.empty (max (capacity / count + if i < capacity % count then 1 else 0) 1)
        (Nat.lt_of_lt_of_le Nat.one_pos (Nat.le_max_right _ _)) }

/-- FNV-1a over the bytes of a key. -/
def hash (key : String) : UInt64 :=
  (key.toList.flatMap String.utf8EncodeChar).foldl
    (fun h b => (h ^^^ b.toUInt64) * 0x100000001b3) 0xcbf29ce484222325

/-- The index of a key's shard: the hash masked with `count - 1`. -/
def shardFor (c : ShardedLruCache) (key : String) : Nat :=
  (hash key).toNat &&& (c.count - 1)

def setShard (c : ShardedLruCache) (i : Nat) (s : Lru String CacheEntry) : ShardedLruCache :=
  { c with shard := Function.update c.shard i s }

def peek (c : ShardedLruCache) (key : String) : Option CacheEntry :=
  (c.shard (c.shardFor key)).peek key

def get (c : ShardedLruCache) (key : String) : Option CacheEntry × ShardedLruCache :=
  let r := (c.shard (c.shardFor key)).get key
  (r.1, c.setShard (c.shardFor key) r.2)

def contains (c : ShardedLruCache) (key : String) : Bool :=
  (c.shard (c.shardFor key)).contains key

def push (c : ShardedLruCache) (key : String) (entry : CacheEntry) :
    Option (String × CacheEntry) × ShardedLruCache :=
  let r := (c.shard (c.shardFor key)).push key entry
  (r.1, c.setShard (c.shardFor key) r.2)

def pop (c : ShardedLruCache) (key : String) : ShardedLruCache :=
  c.setShard (c.shardFor key) ((c.shard (c.shardFor key)).pop key)

def entries (c : ShardedLruCache) : List (String × CacheEntry) :=
  (List.range c.count).flatMap fun i => (c.shard i).entries

def retain (c : ShardedLruCache) (keep : CacheEntry → Bool) : ShardedLruCache :=
  { c with shard := fun i => (c.shard i).retain keep }

def clear (c : ShardedLruCache) : ShardedLruCache :=
  { c with shard := fun i => (c.shard i).clear }

def size (c : ShardedLruCache) : Nat :=
  ((List.range c.count).map fun i => (c.shard i).size).sum

end ShardedLruCache

/-! ### The plugin -/

structure CacheStats where
  hits : Nat
  misses : Nat
  evictions : Nat
  expirations : Nat
  deriving DecidableEq, Repr

namespace CacheStats

def recordHit (s : CacheStats) : CacheStats := { s with hits := s.hits + 1 }
def recordMiss (s : CacheStats) : CacheStats := { s with misses := s.misses + 1 }
def recordEviction (s : CacheStats) : CacheStats := { s with evictions := s.evictions + 1 }
def recordExpiration (s : CacheStats) : CacheStats := { s with expirations := s.expirations + 1 }

end CacheStats

/-- A refresh to run in the background: a request, and the entry plugin to run it from. -/
structure RefreshTask where
  key : String
  message : Message
  entryName : String
  deriving DecidableEq, Repr

/-- The queue of the refresh workers and the keys they have accepted. -/
structure RefreshCoordinator where
  queue : List RefreshTask
  capacity : Nat
  processing : List String
  deriving DecidableEq, Repr

/-- What a cache hands to the runtime with `tokio::spawn`. -/
inductive Spawned where
  | enqueue (task : RefreshTask)
  | invalidate (key : String) (notBefore : Nat)
  deriving DecidableEq, Repr

/-- `belowThreshold remaining original` is the comparison of `remaining / original` with the lazy-refresh threshold, in single precision. -/
structure CachePlugin where
  cache : ShardedLruCache
  stats : CacheStats
  negativeCache : Bool
  negativeTtl : Nat
  enableLazycache : Bool
  belowThreshold : Nat → Nat → Bool
  cacheTtl : Option Nat
  refreshes : Nat
  refreshingKeys : List String
  coordinator : Option RefreshCoordinator
  spawned : List Spawned
  changesSinceDump : Nat

namespace CachePlugin

/-- `CachePlugin::new`: negative caching, lazy refresh and stale serving are off. -/
def new (maxSize : Nat) : CachePlugin where
  cache := ShardedLruCache.new maxSize
  stats := ⟨0, 0, 0, 0⟩
  negativeCache := false
  negativeTtl := 300
  enableLazycache := false
  belowThreshold := fun remaining original => decide (remaining * 20 ≤ original)
  cacheTtl := none
  refreshes := 0
  refreshingKeys := []
  coordinator := none
  spawned := []
  changesSinceDump := 0

/-- Whether some OPT record asks for DNSSEC records. -/
def hasDo (m : Message) : Bool :=
  m.additional.any fun rr =>
    match rr.rdata with
    | .OPT _ _ flags _ => flags &&& 0x8000 != 0
    | _ => false

/-- The flag byte of a cache key: AD, CD, and DO in some OPT record. -/
def keyFlags (m : Message) : Nat :=
  (if m.ad then 1 else 0) + (if m.cd then 2 else 0) + (if hasDo m then 4 else 0)

def makeKey (env : Env) (m : Message) : Option String :=
  m.questions.head?.map fun q =>
    env.toLowercase q.qname ++ ":" ++ toString q.qtype.toU16.toNat ++ ":" ++
      toString q.qclass.toU16.toNat ++ ":" ++ toString (keyFlags m)

def getMinTtl (m : Message) : Nat :=
  let minTtl := m.records.foldl (fun t rr => min t rr.ttl) U32_MAX
  if minTtl = U32_MAX then 300 else max minTtl 1

def updateTtls (m : Message) (remainingTtl : Nat) : Message :=
  m.mapRecords fun rr => { rr with ttl := remainingTtl }

def serveCachedResponse (ctx : Context) (entry : CacheEntry) (ttl : Nat) : Context :=
  (ctx.setResponse (some { updateTtls entry.response ttl with
    id := ctx.request.id
    questions := ctx.request.questions })).setMetadata "response_from_cache" (.bool true)

def spawnBackgroundRefresh (now : Nat) (ctx : Context) (key : String) (c : CachePlugin) :
    CachePlugin :=
  if key ∈ c.refreshingKeys then c
  else
    let c := { c with refreshingKeys := key :: c.refreshingKeys, refreshes := c.refreshes + 1 }
    match ctx.getHandler "lazy_refresh_handler", ctx.getString "lazy_refresh_entry" with
    | some _, some entryName =>
      let task := { key, message := { ctx.request with id := 0xFFFF }, entryName }
      { c with spawned := c.spawned ++ [.enqueue task] }
    | _, _ => { c with spawned := c.spawned ++ [.invalidate key (now + 10)] }

def store (c : CachePlugin) (key : String) (entry : CacheEntry) : CachePlugin :=
  let keyExists := c.cache.contains key
  let pushed := c.cache.push key entry
  { c with
    cache := pushed.2
    stats := if pushed.1.isSome && !keyExists then c.stats.recordEviction else c.stats
    changesSinceDump := c.changesSinceDump + 1 }

/-- The part of `try_serve_from_cache` that has found an entry. -/
def serveEntry (now : Nat) (key : String) (entry : CacheEntry) (ctx : Context) (c : CachePlugin) :
    Context × CachePlugin :=
  if entry.isCacheExpired now then
    (ctx, { c with
      cache := c.cache.pop key
      stats := c.stats.recordExpiration.recordMiss })
  else
    let c := { c with stats := c.stats.recordHit }
    let remaining := entry.remainingTtl now
    if remaining = 0 then
      match c.cacheTtl with
      | some _ =>
        let ctx := serveCachedResponse ctx entry STALE_RESPONSE_TTL_SECS
        (ctx.setMetadata RETURN_FLAG (.bool true), c.spawnBackgroundRefresh now ctx key)
      | none =>
        (ctx, { c with
          cache := c.cache.pop key
          stats := c.stats.recordExpiration.recordMiss })
    else
      let ctx := serveCachedResponse ctx entry remaining
      let c := if c.enableLazycache && c.belowThreshold remaining entry.originalTtl
        then c.spawnBackgroundRefresh now ctx key else c
      (ctx.setMetadata RETURN_FLAG (.bool true), c)

def tryServeFromCache (now : Nat) (key : String) (ctx : Context) (c : CachePlugin) :
    Context × CachePlugin :=
  let cacheAlreadyChecked := (ctx.getBool "cache_checked").isSome
  let ctx := ctx.setMetadata "cache_checked" (.bool true)
  if (ctx.getBool "background_lazy_refresh").isSome then (ctx, c)
  else
    match c.cache.get key with
    | (none, cache) =>
      (ctx, { c with
        cache
        stats := if cacheAlreadyChecked then c.stats else c.stats.recordMiss })
    | (some entry, cache) => serveEntry now key entry ctx { c with cache }

/-- The entry `try_store_response` stores for a response, if it stores one. -/
def entryFor (now : Nat) (c : CachePlugin) (response : Message) : Option CacheEntry :=
  if response.rcode ≠ .noError then
    if c.negativeCache then
      some (CacheEntry.new now response c.negativeTtl (c.cacheTtl.getD c.negativeTtl))
    else none
  else if response.answers.isEmpty then none
  else
    let ttl := getMinTtl response
    if ttl > 0 then some (CacheEntry.new now response ttl (c.cacheTtl.getD ttl)) else none

def tryStoreResponse (now : Nat) (key : String) (ctx : Context) (c : CachePlugin) : CachePlugin :=
  if (ctx.getBool "response_from_cache").isSome then c
  else
    match ctx.response.bind (c.entryFor now) with
    | some entry => c.store key entry
    | none => c

/-- `CachePlugin::execute`: a lookup without a response, a store with one. -/
def execute (env : Env) (now : Nat) (ctx : Context) (c : CachePlugin) : Context × CachePlugin :=
  match makeKey env ctx.request with
  | none => (ctx, c)
  | some key =>
    if (ctx.getBool "response_from_cache").isSome then (ctx, c)
    else if ctx.response.isNone then c.tryServeFromCache now key ctx
    else (ctx, c.tryStoreResponse now key ctx)

/-- `cleanup_expired`, the periodic background task. -/
def cleanupExpired (now : Nat) (c : CachePlugin) : CachePlugin :=
  let cache := c.cache.retain fun e => !e.isCacheExpired now
  { c with
    cache
    stats := { c.stats with expirations := c.stats.expirations + (c.cache.size - cache.size) } }

/-- `clear`, for the administrator. -/
def clear (c : CachePlugin) : CachePlugin := { c with cache := c.cache.clear }

/-! ### Background jobs -/

/-- `RefreshCoordinator::enqueue`; a rejected task leaves the coordinator as it was. -/
def enqueue (q : RefreshCoordinator) (task : RefreshTask) : Option RefreshCoordinator :=
  if task.key ∈ q.processing then none
  else if q.queue.length < q.capacity then
    some { q with queue := q.queue ++ [task], processing := task.key :: q.processing }
  else none

/-- The runtime runs the `i`-th spawned job, if its time has come. -/
def runSpawned (now i : Nat) (c : CachePlugin) : CachePlugin :=
  match c.spawned[i]? with
  | none => c
  | some (.enqueue task) =>
    let c := { c with spawned := c.spawned.eraseIdx i }
    match c.coordinator.bind fun q => enqueue q task with
    | some q => { c with coordinator := some q }
    | none => { c with refreshingKeys := c.refreshingKeys.filter (· ≠ task.key) }
  | some (.invalidate key notBefore) =>
    if now < notBefore then c
    else { c with
      spawned := c.spawned.eraseIdx i
      cache := c.cache.pop key
      refreshingKeys := c.refreshingKeys.filter (· ≠ key) }

def takeTask (c : CachePlugin) : Option (RefreshTask × CachePlugin) :=
  match c.coordinator with
  | some q =>
    match q.queue with
    | task :: rest => some (task, { c with coordinator := some { q with queue := rest } })
    | [] => none
  | none => none

/-- A worker is done with a task, whatever its outcome: the key may be refreshed again. -/
def finishTask (key : String) (c : CachePlugin) : CachePlugin :=
  { c with
    coordinator := c.coordinator.map fun q =>
      { q with processing := q.processing.filter (· ≠ key) }
    refreshingKeys := c.refreshingKeys.filter (· ≠ key) }

end CachePlugin

end Lazydns
