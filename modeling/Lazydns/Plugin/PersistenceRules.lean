import Lazydns.Plugin.Persistence

/-!
# What a restart keeps

Reading a dump gives back the entries it was made of, less those whose original TTL is over, as long as every field fits its width in the file and the wire format gives back the responses. For the table this means that an entry is there after a restart if and only if it was there before and is not over, with its times as `CacheEntry.restored` says.
-/

namespace Lazydns

open Dns Bytes

/-! ### Entries -/

namespace CacheEntry

/-- The original TTL is not over. -/
def Lives (now : Nat) (e : CacheEntry) : Prop := unixNow now - e.cachedAtUnix < e.originalTtl

instance (now : Nat) (e : CacheEntry) : Decidable (e.Lives now) := inferInstanceAs (Decidable (_ < _))

/-- The entry that a restart makes of a living one: what remains of the original TTL is its TTL and its time in the cache. -/
def restored (now : Nat) (e : CacheEntry) : CacheEntry where
  response := e.response
  cachedAt := now
  ttl := e.originalTtl - (unixNow now - e.cachedAtUnix)
  cacheTtl := e.originalTtl - (unixNow now - e.cachedAtUnix)
  originalTtl := e.originalTtl
  cachedAtUnix := e.cachedAtUnix

end CacheEntry

namespace Persistence

variable {wire : WireCodec} {now : Nat}

/-- Every field of an entry fits its width in the file, and the wire format gives back the response. -/
structure Fits (wire : WireCodec) (e : String × CacheEntry) : Prop where
  key : (ofString e.1).length < 256 ^ 2
  cachedAtUnix : e.2.cachedAtUnix < 256 ^ 8
  originalTtl : e.2.originalTtl < 256 ^ 4
  response : ∃ msgBytes, wire.serializeMessage e.2.response = some msgBytes ∧
    msgBytes.length < 256 ^ 4 ∧ wire.parseMessage msgBytes = some e.2.response

def persisted (e : String × CacheEntry) : PersistedEntry where
  key := e.1
  response := e.2.response
  cachedAtUnix := e.2.cachedAtUnix
  originalTtl := e.2.originalTtl

/-! ### The file -/

theorem readEntry_dumpEntry {e : String × CacheEntry} (hfits : Fits wire e) :
    ∃ bytes msgBytes, dumpEntry wire e = some bytes ∧ wire.parseMessage msgBytes = some e.2.response ∧
      ∀ rest, readEntry (bytes ++ rest) =
        some ((e.1, e.2.cachedAtUnix, e.2.originalTtl, msgBytes), rest) := by
  obtain ⟨msgBytes, hserialize, hlength, hparse⟩ := hfits.response
  refine ⟨_, msgBytes, by rw [dumpEntry, hserialize, Option.map_some], hparse, fun rest => ?_⟩
  simp only [readEntry, List.append_assoc, Option.bind_eq_bind, readLe_writeLe hfits.key,
    readLe_writeLe hfits.cachedAtUnix, readLe_writeLe hfits.originalTtl, readLe_writeLe hlength,
    block_append, Option.bind_some, toStringLossy_ofString, Option.pure_def]

/-- The loop reads back what was written, entry by entry. -/
theorem loadEntries_dumpEntry {entries : List (String × CacheEntry)}
    (hfits : ∀ e ∈ entries, Fits wire e) :
    ∃ blocks, entries.mapM (dumpEntry wire) = some blocks ∧
      loadEntries wire (unixNow now) entries.length blocks.flatten =
        (entries.filter fun e => e.2.Lives now).map persisted := by
  induction entries with
  | nil => exact ⟨[], rfl, rfl⟩
  | cons e entries ih =>
    obtain ⟨blocks, hblocks, hload⟩ := ih fun e he => hfits e (List.mem_cons_of_mem _ he)
    obtain ⟨bytes, msgBytes, hbytes, hparse, hread⟩ :=
      readEntry_dumpEntry (hfits e List.mem_cons_self)
    refine ⟨bytes :: blocks, by simp [List.mapM_cons, hbytes, hblocks], ?_⟩
    rw [List.length_cons, List.flatten_cons, loadEntries, hread]
    dsimp only
    rw [hload, hparse]
    by_cases hlives : e.2.Lives now
    · rw [if_neg (Nat.not_le_of_lt hlives), List.filter_cons, if_pos (decide_eq_true hlives), List.map_cons]
      rfl
    · rw [if_pos (Nat.le_of_not_lt hlives), List.filter_cons, if_neg (by rwa [decide_eq_true_iff])]

/-- The magic, the count and what comes after them. -/
theorem header_dump {count : Nat} (hcount : count < 256 ^ 4) (flat : List UInt8) :
    12 ≤ (MAGIC ++ (writeLe 4 count ++ flat)).length ∧
      (MAGIC ++ (writeLe 4 count ++ flat)).take 8 = MAGIC ∧
      valueLe (((MAGIC ++ (writeLe 4 count ++ flat)).drop 8).take 4) = count ∧
      (MAGIC ++ (writeLe 4 count ++ flat)).drop 12 = flat := by
  have hmagic : MAGIC.length = 8 := by decide
  have hwidth : (writeLe 4 count).length = 4 := length_writeLe 4 _
  refine ⟨?_, List.take_left' hmagic, ?_, ?_⟩
  · simp only [List.length_append]
    omega
  · rw [List.drop_left' hmagic, List.take_left' hwidth, valueLe_writeLe, Nat.mod_eq_of_lt hcount]
  · rw [← List.append_assoc, List.drop_left' (by rw [List.length_append]; omega)]

theorem loadCache_dump {count : Nat} (hcount : count < 256 ^ 4) (flat : List UInt8) :
    loadCache wire now (some (MAGIC ++ (writeLe 4 count ++ flat))) =
      .ok (loadEntries wire (unixNow now) count flat) := by
  obtain ⟨hlong, hmagic, hvalue, hrest⟩ := header_dump hcount flat
  rw [loadCache, if_neg (Nat.not_lt_of_le hlong), if_neg (not_not_intro hmagic), hvalue, hrest]

theorem loadCache_dumpCache {entries : List (String × CacheEntry)}
    (hfits : ∀ e ∈ entries, Fits wire e) (hcount : entries.length < 256 ^ 4) :
    ∃ bytes, dumpCache wire entries = some bytes ∧
      loadCache wire now (some bytes) = .ok ((entries.filter fun e => e.2.Lives now).map persisted) := by
  obtain ⟨blocks, hblocks, hload⟩ := loadEntries_dumpEntry hfits
  refine ⟨_, by rw [dumpCache, hblocks, Option.map_some], ?_⟩
  rw [loadCache_dump hcount, hload]

theorem restoreEntry_persisted {e : String × CacheEntry} (hfits : Fits wire e)
    (hlives : e.2.Lives now) : restoreEntry now (persisted e) = some (e.2.restored now) := by
  have hbound := hfits.originalTtl
  have hsmall : unixNow now - e.2.cachedAtUnix < U32_MAX + 1 := by
    rw [CacheEntry.Lives] at hlives
    rw [U32_MAX]
    omega
  have hpos : e.2.originalTtl - (unixNow now - e.2.cachedAtUnix) ≠ 0 := Nat.sub_ne_zero_of_lt hlives
  rw [restoreEntry, persisted]
  dsimp only
  rw [Nat.mod_eq_of_lt hsmall, if_neg hpos]
  rfl

/-! ### A reply and its bytes -/

def oneAddress : Message :=
  { Message.new with
    id := 7
    qr := true
    questions := [⟨"a.", .A, .IN⟩]
    answers := [⟨"a.", .A, .IN, 300, .A 0⟩] }

def oneAddressBytes : List UInt8 :=
  [0, 7, 0x81, 0, 0, 1, 0, 1, 0, 0, 0, 0, 1, 97, 0, 0, 1, 0, 1,
    0xC0, 12, 0, 1, 0, 1, 0, 0, 1, 0x2C, 0, 4, 0, 0, 0, 0]

/-- The wire format, as far as this reply goes. -/
def oneAddressWire : WireCodec where
  serializeMessage := fun m => if m = oneAddress then some oneAddressBytes else none
  parseMessage := fun bytes => if bytes = oneAddressBytes then some oneAddress else none

theorem serializeMessage_oneAddress : oneAddressWire.serializeMessage oneAddress = some oneAddressBytes := by
  simp only [oneAddressWire, ↓reduceIte]

theorem parseMessage_oneAddressBytes : oneAddressWire.parseMessage oneAddressBytes = some oneAddress := by
  simp only [oneAddressWire, ↓reduceIte]

end Persistence

/-! ### The table -/

namespace ShardedLruCache

variable {c : ShardedLruCache}

/-- Every key is in the shard it is routed to. -/
structure Routed (c : ShardedLruCache) : Prop where
  count_pos : 0 < c.count
  shardFor : ∀ {i key e}, (c.shard i).peek key = some e → c.shardFor key = i

theorem shardFor_lt (hpos : 0 < c.count) (key : String) : c.shardFor key < c.count := by
  have hand : (hash key).toNat &&& (c.count - 1) ≤ c.count - 1 := Nat.and_le_right
  rw [shardFor]
  omega

theorem routed_setShard (hc : c.Routed) (key : String) {s : Lru String CacheEntry}
    (hs : ∀ key' e, s.peek key' = some e → c.shardFor key' = c.shardFor key) :
    (c.setShard (c.shardFor key) s).Routed where
  count_pos := hc.count_pos
  shardFor := fun {i key' e} h => by
    change (Function.update c.shard (c.shardFor key) s i).peek key' = some e at h
    change c.shardFor key' = i
    by_cases hi : i = c.shardFor key
    · rw [hi, Function.update_self] at h
      exact (hs key' e h).trans hi.symm
    · rw [Function.update_of_ne hi] at h
      exact hc.shardFor h

theorem mem_entries (hc : c.Routed) {key : String} {e : CacheEntry} :
    (key, e) ∈ c.entries ↔ c.peek key = some e := by
  rw [entries, List.mem_flatMap, peek]
  constructor
  · rintro ⟨i, -, hmem⟩
    have hpeek := Lru.mem_entries.mp hmem
    rwa [hc.shardFor hpeek]
  · intro hpeek
    exact ⟨c.shardFor key, List.mem_range.mpr (shardFor_lt hc.count_pos key), Lru.mem_entries.mpr hpeek⟩

theorem nodup_entries (hc : c.Routed) : (c.entries.map Prod.fst).Nodup := by
  rw [entries, List.map_flatMap, List.nodup_flatMap]
  refine ⟨fun i _ => Lru.nodup_entries _, List.nodup_range.imp fun {i j} hne => ?_⟩
  intro key hi hj
  obtain ⟨⟨key, e⟩, he, rfl⟩ := List.mem_map.mp hi
  obtain ⟨⟨key', e'⟩, he', rfl⟩ := List.mem_map.mp hj
  exact hne ((hc.shardFor (Lru.mem_entries.mp he)).symm.trans (hc.shardFor (Lru.mem_entries.mp he')))

end ShardedLruCache

end Lazydns
