import Lazydns.Lib.Bytes
import Lazydns.Lib.Machine
import Lazydns.Plugin.CacheSpec

/-!
# The dump file of a cache

A cache writes its entries to a file when it shuts down, and a new one reads them back. The file has a magic, the number of entries, and for each entry its key, the second it was cached in, its original TTL and its response in wire format; lengths and numbers are cut off to the width of their fields. The file system is the content of the one configured file: it is replaced as a whole, or stays as it was where a response cannot be serialized.
-/

namespace Lazydns

open Dns

/-- `wire::serialize_message` and `wire::parse_message`. -/
structure WireCodec where
  serializeMessage : Message → Option (List UInt8)
  parseMessage : List UInt8 → Option Message

namespace Persistence

open Bytes

def MAGIC : List UInt8 := ofString "LZDNSCv1"

structure PersistedEntry where
  key : String
  response : Message
  cachedAtUnix : Nat
  originalTtl : Nat
  deriving DecidableEq, Repr

section

variable (wire : WireCodec)

/-! ### Writing -/

def dumpEntry (e : String × CacheEntry) : Option (List UInt8) :=
  (wire.serializeMessage e.2.response).map fun msgBytes =>
    writeLe 2 (ofString e.1).length ++ (ofString e.1 ++ (writeLe 8 e.2.cachedAtUnix ++
      (writeLe 4 e.2.originalTtl ++ (writeLe 4 msgBytes.length ++ msgBytes))))

/-- `dump_cache`: the bytes of the file, unless some response cannot be serialized. -/
def dumpCache (entries : List (String × CacheEntry)) : Option (List UInt8) :=
  (entries.mapM (dumpEntry wire)).map fun blocks =>
    MAGIC ++ (writeLe 4 entries.length ++ blocks.flatten)

/-! ### Reading -/

/-- The key, the two numbers and the message bytes of one entry, and the rest; nothing where the bytes end too early. -/
def readEntry (bytes : List UInt8) : Option ((String × Nat × Nat × List UInt8) × List UInt8) := do
  let (keyLen, bytes) ← readLe 2 bytes
  let (key, bytes) ← block keyLen bytes
  let (cachedAtUnix, bytes) ← readLe 8 bytes
  let (originalTtl, bytes) ← readLe 4 bytes
  let (msgLen, bytes) ← readLe 4 bytes
  let (msgBytes, bytes) ← block msgLen bytes
  return ((toStringLossy key, cachedAtUnix, originalTtl, msgBytes), bytes)

/-- The loop of `load_cache`: expired and unparseable entries are skipped. -/
def loadEntries (unixNow : Nat) : Nat → List UInt8 → List PersistedEntry
  | 0, _ => []
  | count + 1, bytes =>
    match readEntry bytes with
    | none => []
    | some ((key, cachedAtUnix, originalTtl, msgBytes), bytes) =>
      if unixNow - cachedAtUnix ≥ originalTtl then loadEntries unixNow count bytes
      else match wire.parseMessage msgBytes with
        | some response =>
          { key, response, cachedAtUnix, originalTtl } :: loadEntries unixNow count bytes
        | none => loadEntries unixNow count bytes

/-- `load_cache`, of a file that may be missing. -/
def loadCache (now : Nat) : Option (List UInt8) → Except Error (List PersistedEntry)
  | none => .ok []
  | some bytes =>
    if bytes.length < 12 then .ok []
    else if bytes.take 8 ≠ MAGIC then
      .error (.config ("invalid cache dump magic: expected " ++ toString MAGIC ++ ", got " ++
        toString (bytes.take 8)))
    else .ok (loadEntries wire (unixNow now) (valueLe ((bytes.drop 8).take 4)) (bytes.drop 12))

/-! ### Positions -/

/-- A sum of positions: a `usize` has a number of bits, and wraps around. -/
def advance (bits pos n : Nat) : Nat := (pos + n) % 2 ^ bits

/-- The loop of `load_cache` from a position of the buffer on. `none` is an access out of range. -/
def loadLoop (bits unixNow : Nat) (buf : List UInt8) : Nat → Nat → Option (List PersistedEntry)
  | 0, _ => some []
  | count + 1, pos =>
    if buf.length < advance bits pos 2 then some [] else do
    let keyLen := valueLe (← slice buf pos (advance bits pos 2))
    let pos := advance bits pos 2
    if buf.length < advance bits pos keyLen then return [] else
    let key := toStringLossy (← slice buf pos (advance bits pos keyLen))
    let pos := advance bits pos keyLen
    if buf.length < advance bits pos 12 then return [] else
    let cachedAtUnix := valueLe (← slice buf pos (advance bits pos 8))
    let pos := advance bits pos 8
    let originalTtl := valueLe (← slice buf pos (advance bits pos 4))
    let pos := advance bits pos 4
    if buf.length < advance bits pos 4 then return [] else
    let msgLen := valueLe (← slice buf pos (advance bits pos 4))
    let pos := advance bits pos 4
    if buf.length < advance bits pos msgLen then return [] else
    let msgBytes ← slice buf pos (advance bits pos msgLen)
    let loaded ← loadLoop bits unixNow buf count (advance bits pos msgLen)
    if unixNow - cachedAtUnix ≥ originalTtl then return loaded
    else match wire.parseMessage msgBytes with
      | some response => return { key, response, cachedAtUnix, originalTtl } :: loaded
      | none => return loaded

/-- `load_cache` of a file that is there. -/
def loadBuffer (bits now : Nat) (buf : List UInt8) : Option (Except Error (List PersistedEntry)) :=
  if buf.length < 12 then some (.ok []) else do
  let magic ← slice buf 0 8
  if magic ≠ MAGIC then
    return .error (.config ("invalid cache dump magic: expected " ++ toString MAGIC ++ ", got " ++
      toString magic))
  else
    let count := valueLe (← slice buf 8 12)
    return .ok (← loadLoop wire bits (unixNow now) buf count 12)

/-- The entry put into the cache for a loaded one, unless its TTL is over. -/
def restoreEntry (now : Nat) (entry : PersistedEntry) : Option CacheEntry :=
  let elapsed := unixNow now - entry.cachedAtUnix
  let remaining := entry.originalTtl - elapsed % (U32_MAX + 1)
  if remaining = 0 then none
  else some {
    response := entry.response
    cachedAt := now
    ttl := remaining
    cacheTtl := remaining
    originalTtl := entry.originalTtl
    cachedAtUnix := entry.cachedAtUnix }

end

end Persistence

open Persistence

/-- The pushes of `restore_from_dump`. -/
def ShardedLruCache.restore (now : Nat) (c : ShardedLruCache) (loaded : List PersistedEntry) :
    ShardedLruCache :=
  loaded.foldl (fun c entry =>
    match restoreEntry now entry with
    | some cacheEntry => (c.push entry.key cacheEntry).2
    | none => c) c

namespace CachePlugin

/-- `dump_to_file`: the cache after it, and the file. -/
def dumpToFile (wire : WireCodec) (c : CachePlugin) (file : Option (List UInt8)) :
    CachePlugin × Option (List UInt8) :=
  match dumpCache wire c.cache.entries with
  | some bytes => ({ c with changesSinceDump := 0 }, some bytes)
  | none => (c, file)

def restoreFromDump (wire : WireCodec) (now : Nat) (file : Option (List UInt8)) (c : CachePlugin) :
    CachePlugin :=
  match loadCache wire now file with
  | .ok loaded => { c with cache := c.cache.restore now loaded }
  | .error _ => c

end CachePlugin

/-! ### Restarts -/

structure Process where
  time : Nat
  file : Option (List UInt8)
  plugin : CachePlugin

/-- When the server is restarted, and the capacity the new cache is configured with. -/
structure Restart where
  now : Nat
  size : Nat
  deriving DecidableEq, Repr

namespace Process

/-- The cache is dumped, and a new one reads the dump. -/
def restart (wire : WireCodec) (r : Restart) (s : Process) : Process :=
  let file := (s.plugin.dumpToFile wire s.file).2
  { time := r.now, file, plugin := (CachePlugin.new r.size).restoreFromDump wire r.now file }

/-- All entries of a cache have room in a new one, each in the shard it is routed to. -/
def Room (size : Nat) (c : ShardedLruCache) : Prop :=
  ∀ i < (ShardedLruCache.new size).count,
    c.entries.countP (fun e => (ShardedLruCache.new size).shardFor e.1 = i) ≤
      ((ShardedLruCache.new size).shard i).cap

instance (size : Nat) (c : ShardedLruCache) : Decidable (Room size c) :=
  inferInstanceAs (Decidable (∀ i < _, _))

/-- Runs of restarts in which time does not go back and the capacity is not exceeded. -/
def machine (wire : WireCodec) : Machine Process Restart where
  step s r := if s.time ≤ r.now ∧ Room r.size s.plugin.cache then some (restart wire r s) else none

end Process

end Lazydns
