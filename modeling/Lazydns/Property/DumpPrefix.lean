import Lazydns.Plugin.DumpReader

/-!
# A dump that was cut off

From the first bytes of a dump, as many as there are, the loader takes the entries whose bytes are all there, less those that are over. It does not read out of range on any bytes, as long as a position can count to the end of every message that the bytes announce; with 64 bits it always can.
-/

namespace Lazydns

open Dns Bytes

namespace Persistence

variable {wire : WireCodec} {now : Nat} {entries : List (String × CacheEntry)}

/-- Where each of the blocks ends, the first of them beginning at `start`. -/
def ends : Nat → List (List UInt8) → List Nat
  | _, [] => []
  | start, block :: blocks => (start + block.length) :: ends (start + block.length) blocks

/-- The entries that a dump of which `n` bytes are there is loaded as. -/
def whole (now n : Nat) (entries : List (String × CacheEntry)) (stops : List Nat) : List PersistedEntry :=
  ((entries.zip stops).filter fun e => e.2 ≤ n ∧ e.1.2.Lives now).map fun e => persisted e.1

/-- No list of bytes is longer than what half of the positions count. -/
def InMemory (bits : Nat) (bytes : List UInt8) : Prop := bytes.length < 2 ^ (bits - 1)

instance (bits : Nat) (bytes : List UInt8) : Decidable (InMemory bits bytes) :=
  inferInstanceAs (Decidable (_ < _))

theorem whole_cons (n : Nat) (e : String × CacheEntry) (stop : Nat) (stops : List Nat) :
    whole now n (e :: entries) (stop :: stops) =
      if stop ≤ n ∧ e.2.Lives now then persisted e :: whole now n entries stops
      else whole now n entries stops := by
  rw [whole, List.zip_cons_cons, List.filter_cons]
  by_cases h : stop ≤ n ∧ e.2.Lives now
  · rw [if_pos (decide_eq_true h), if_pos h]
    rfl
  · rw [if_neg (fun htrue => h (of_decide_eq_true htrue)), if_neg h]
    rfl

theorem le_of_mem_ends {start stop : Nat} {blocks : List (List UInt8)} (h : stop ∈ ends start blocks) :
    start ≤ stop := by
  induction blocks generalizing start with
  | nil => cases h
  | cons block blocks ih =>
    rcases List.mem_cons.mp h with rfl | h
    · exact Nat.le_add_right _ _
    · exact (Nat.le_add_right _ _).trans (ih h)

theorem whole_eq_nil {n start : Nat} {blocks : List (List UInt8)} (h : n < start) :
    whole now n entries (ends start blocks) = [] := by
  rw [whole, List.map_eq_nil_iff, List.filter_eq_nil_iff]
  intro e he hwhole
  have hstop := le_of_mem_ends (List.of_mem_zip he).2
  have hle := (of_decide_eq_true hwhole).1
  omega

/-! ### Entries -/

theorem readHead_dumpEntry {e : String × CacheEntry} (hfits : Fits wire e) :
    ∃ bytes msgBytes, dumpEntry wire e = some bytes ∧ wire.serializeMessage e.2.response = some msgBytes ∧
      wire.parseMessage msgBytes = some e.2.response ∧ ∀ rest, readHead (bytes ++ rest) =
        some ((e.1, e.2.cachedAtUnix, e.2.originalTtl, msgBytes.length), msgBytes ++ rest) := by
  obtain ⟨msgBytes, hserialize, hlength, hparse⟩ := hfits.response
  refine ⟨_, msgBytes, by rw [dumpEntry, hserialize, Option.map_some], hserialize, hparse, fun rest => ?_⟩
  simp only [readHead, List.append_assoc, Option.bind_eq_bind, readLe_writeLe hfits.key,
    readLe_writeLe hfits.cachedAtUnix, readLe_writeLe hfits.originalTtl, readLe_writeLe hlength,
    block_append, Option.bind_some, toStringLossy_ofString, Option.pure_def]

/-- The loop on the first bytes of a dump takes the whole entries, whatever comes after. -/
theorem loadEntries_take (hfits : ∀ e ∈ entries, Fits wire e) :
    ∃ blocks, entries.mapM (dumpEntry wire) = some blocks ∧ ∀ start m,
      loadEntries wire (unixNow now) entries.length (blocks.flatten.take m) =
        whole now (start + m) entries (ends start blocks) := by
  induction entries with
  | nil => exact ⟨[], rfl, fun _ _ => rfl⟩
  | cons e entries ih =>
    obtain ⟨blocks, hblocks, hload⟩ := ih fun e he => hfits e (List.mem_cons_of_mem _ he)
    obtain ⟨bytes, msgBytes, hbytes, hparse, hread⟩ := readEntry_dumpEntry (hfits e List.mem_cons_self)
    refine ⟨bytes :: blocks, by simp [List.mapM_cons, hbytes, hblocks], fun start m => ?_⟩
    rw [List.length_cons, List.flatten_cons]
    by_cases hm : m < bytes.length
    · rw [loadEntries_of_readEntry_eq_none (extends_readEntry.take_eq_none (hread _) hm), ends,
        whole_cons, if_neg (by omega)]
      exact (whole_eq_nil (by omega)).symm
    · have htake : (bytes ++ blocks.flatten).take m =
          bytes ++ blocks.flatten.take (m - bytes.length) := by
        rw [List.take_append, List.take_of_length_le (Nat.le_of_not_lt hm)]
      have hrest := hload (start + bytes.length) (m - bytes.length)
      rw [show start + bytes.length + (m - bytes.length) = start + m by omega] at hrest
      rw [htake, loadEntries, hread]
      dsimp only
      rw [hrest, hparse, ends, whole_cons]
      by_cases hlives : e.2.Lives now
      · rw [if_neg (Nat.not_le_of_lt hlives), if_pos ⟨by omega, hlives⟩]
        rfl
      · rw [if_pos (Nat.le_of_not_lt hlives), if_neg (fun h => hlives h.2)]

theorem extends_readHead : Extends readHead :=
  (extends_readLe 2).bind fun keyLen => (extends_block keyLen).bind fun key =>
    (extends_readLe 8).bind fun cachedAtUnix => (extends_readLe 4).bind fun originalTtl =>
      (extends_readLe 4).bind fun msgLen =>
        extends_pure (toStringLossy key, cachedAtUnix, originalTtl, msgLen)

/-- No header in the first bytes of a dump announces more than the message that was written. -/
theorem noWrap_take {bits total : Nat} (hfits : ∀ e ∈ entries, Fits wire e)
    (hmemory : ∀ e ∈ entries, ∀ msgBytes, wire.serializeMessage e.2.response = some msgBytes →
      total + msgBytes.length < 2 ^ bits) :
    ∃ blocks, entries.mapM (dumpEntry wire) = some blocks ∧
      ∀ m, NoWrap bits total entries.length (blocks.flatten.take m) := by
  induction entries with
  | nil => exact ⟨[], rfl, fun _ => trivial⟩
  | cons e entries ih =>
    obtain ⟨blocks, hblocks, hrest⟩ := ih (fun e he => hfits e (List.mem_cons_of_mem _ he))
      fun e he => hmemory e (List.mem_cons_of_mem _ he)
    obtain ⟨bytes, msgBytes, hbytes, hserialize, -, hhead⟩ := readHead_dumpEntry (hfits e List.mem_cons_self)
    have hsmall := hmemory e List.mem_cons_self msgBytes hserialize
    refine ⟨bytes :: blocks, by simp [List.mapM_cons, hbytes, hblocks], fun m => ?_⟩
    rw [List.length_cons, List.flatten_cons, NoWrap]
    by_cases hm : m < bytes.length
    · have hnone : readEntry ((bytes ++ blocks.flatten).take m) = none := by
        refine extends_readEntry.take_eq_none (x := (e.1, e.2.cachedAtUnix, e.2.originalTtl, msgBytes)) ?_ hm
        rw [readEntry_eq, hhead, Option.bind_some]
        dsimp only
        rw [block_append]
        rfl
      cases hcut : readHead ((bytes ++ blocks.flatten).take m) with
      | none => trivial
      | some r =>
        obtain ⟨head, rest⟩ := r
        have hsame := extends_readHead _ _ _ ((bytes ++ blocks.flatten).drop m) hcut
        rw [List.take_append_drop, hhead] at hsame
        obtain ⟨rfl, -⟩ := Prod.mk.inj (Option.some.inj hsame)
        rw [readEntry_eq, hcut, Option.bind_some] at hnone
        dsimp only at hnone ⊢
        rw [Option.map_eq_none_iff.mp hnone]
        exact ⟨by omega, trivial⟩
    · rw [List.take_append, List.take_of_length_le (Nat.le_of_not_lt hm), hhead]
      dsimp only
      rw [block_append]
      exact ⟨by omega, hrest _⟩

/-! ### Dumps -/

theorem take_dump {count n : Nat} {flat : List UInt8} (hn : 12 ≤ n) :
    (MAGIC ++ (writeLe 4 count ++ flat)).take n = MAGIC ++ (writeLe 4 count ++ flat.take (n - 12)) := by
  have hmagic : MAGIC.length = 8 := by decide
  rw [List.take_append, List.take_append, length_writeLe, List.take_of_length_le (by omega),
    List.take_of_length_le (by rw [length_writeLe]; omega), hmagic, Nat.sub_sub]

/-- From the first bytes of a dump exactly the entries that are wholly there and not over are loaded, in order; and on any bytes there is no access out of range exactly if a position can count to the end of every message they announce, as 64 bits always can. -/
theorem load_cut_off_iff {bits : Nat} (hbits : 32 ≤ bits) (wire : WireCodec) (now : Nat) :
    (∀ (entries : List (String × CacheEntry)) (n : Nat), (∀ e ∈ entries, Fits wire e) →
      entries.length < 2 ^ 32 → (∀ e ∈ entries, ∀ msgBytes,
        wire.serializeMessage e.2.response = some msgBytes → InMemory bits msgBytes) → 12 ≤ n →
      ∃ blocks bytes, entries.mapM (dumpEntry wire) = some blocks ∧
        dumpCache wire entries = some bytes ∧ (InMemory bits (bytes.take n) →
          loadBuffer wire bits now (bytes.take n) = some (.ok (whole now n entries (ends 12 blocks))))) ∧
    ∀ buf, InMemory bits buf →
      ((loadBuffer wire bits now buf).isSome ↔ Countable bits buf) ∧
      (bits = 64 → (loadBuffer wire bits now buf).isSome) := by
  have hhalf : 2 ^ bits = 2 ^ (bits - 1) * 2 := by
    rw [← pow_succ]
    congr 1
    omega
  constructor
  · intro entries n hfits hcount hmemory hn
    obtain ⟨blocks, hblocks, hload⟩ := @loadEntries_take wire now entries hfits
    refine ⟨blocks, _, hblocks, by rw [dumpCache, hblocks, Option.map_some], fun hbuf => ?_⟩
    rw [take_dump hn] at hbuf ⊢
    have hcountable : Countable bits
        (MAGIC ++ (writeLe 4 entries.length ++ blocks.flatten.take (n - 12))) := by
      obtain ⟨-, -, hvalue, hrest⟩ := header_dump hcount (blocks.flatten.take (n - 12))
      have hroom : ∀ e ∈ entries, ∀ msgBytes, wire.serializeMessage e.2.response = some msgBytes →
          (MAGIC ++ (writeLe 4 entries.length ++ blocks.flatten.take (n - 12))).length +
            msgBytes.length < 2 ^ bits := by
        intro e he msgBytes hserialize
        have hmsg := hmemory e he msgBytes hserialize
        rw [InMemory] at hmsg hbuf
        omega
      obtain ⟨blocks', hblocks', hwrap⟩ := noWrap_take hfits hroom
      rw [hblocks] at hblocks'
      cases Option.some.inj hblocks'
      intro _ _
      rw [hvalue, hrest]
      exact hwrap _
    rw [(loadBuffer_eq hbits hbuf).1 hcountable, loadCache_dump hcount, hload 12,
      show 12 + (n - 12) = n by omega]
  · intro buf hbuf
    have hloaded : (loadBuffer wire bits now buf).isSome ↔ Countable bits buf := by
      constructor
      · intro hsome
        by_contra hnot
        rw [(loadBuffer_eq hbits hbuf).2 hnot] at hsome
        cases hsome
      · intro hcountable
        rw [(loadBuffer_eq hbits hbuf).1 hcountable]
        rfl
    refine ⟨hloaded, ?_⟩
    rintro rfl
    exact hloaded.mpr (countable_64 hbuf)

def stored : CacheEntry := .new 0 oneAddress 300 300

theorem fits_stored {key : String} (h : (ofString key).length < 256 ^ 2) : Fits oneAddressWire (key, stored) where
  key := h
  cachedAtUnix := show unixNow 0 < 256 ^ 8 by decide
  originalTtl := show 300 < 256 ^ 4 by decide
  response := ⟨oneAddressBytes, serializeMessage_oneAddress, by decide, parseMessage_oneAddressBytes⟩

/-- Of a dump of two entries of which the last byte is missing, the first is loaded. -/
theorem load_first_of_two :
    (dumpCache oneAddressWire [("a.:1:1:0", stored), ("b.:1:1:0", stored)]).bind
        (fun bytes => loadBuffer oneAddressWire 64 0 (bytes.take 133)) =
      some (.ok [persisted ("a.:1:1:0", stored)]) := by
  obtain ⟨blocks, bytes, hblocks, hdump, hload⟩ := (load_cut_off_iff (show 32 ≤ 64 by decide) oneAddressWire 0).1
    [("a.:1:1:0", stored), ("b.:1:1:0", stored)] 133
    (by
      intro e he
      rcases List.mem_pair.mp he with rfl | rfl
      · exact fits_stored (by decide)
      · exact fits_stored (by decide))
    (by decide)
    (by
      intro e he msgBytes hserialize
      have hresponse : e.2.response = oneAddress := by
        rcases List.mem_pair.mp he with rfl | rfl
        · rfl
        · rfl
      rw [hresponse, serializeMessage_oneAddress] at hserialize
      cases Option.some.inj hserialize
      decide)
    (by decide)
  have hmemory : InMemory 64 (bytes.take 133) := by
    rw [InMemory, List.length_take]
    omega
  have hblocks' : [("a.:1:1:0", stored), ("b.:1:1:0", stored)].mapM (dumpEntry oneAddressWire) =
      some [writeLe 2 8 ++ ofString "a.:1:1:0" ++ writeLe 8 0 ++ writeLe 4 300 ++ writeLe 4 35 ++ oneAddressBytes,
        writeLe 2 8 ++ ofString "b.:1:1:0" ++ writeLe 8 0 ++ writeLe 4 300 ++ writeLe 4 35 ++ oneAddressBytes] := by
    decide +kernel
  rw [hblocks] at hblocks'
  cases Option.some.inj hblocks'
  rw [hdump, Option.bind_some, hload hmemory]
  rfl

private theorem ofString_replicate (n : Nat) :
    ofString (String.ofList (List.replicate n 'a')) = List.replicate n 97 := by
  have hchar : String.utf8EncodeChar 'a' = [97] := by decide
  rw [ofString_ofList, List.flatMap_replicate, hchar]
  simp

/-- The length of a key of 65536 bytes is written as zero: the key is then read as what comes after it, and the entry is lost. -/
theorem long_key_lost :
    (dumpCache oneAddressWire [(String.ofList (List.replicate 65536 'a'), stored)]).map
        (fun bytes => loadCache oneAddressWire 0 (some bytes)) = some (.ok []) ∧ stored.Lives 0 := by
  refine ⟨?_, by decide⟩
  have hdump : dumpEntry oneAddressWire (String.ofList (List.replicate 65536 'a'), stored) =
      some (writeLe 2 0 ++ (List.replicate 8 97 ++ (List.replicate 4 97 ++ (List.replicate 4 97 ++
        (List.replicate 65520 97 ++ (writeLe 8 0 ++ (writeLe 4 300 ++ (writeLe 4 35 ++ oneAddressBytes)))))))) := by
    have hserialize : oneAddressWire.serializeMessage stored.response = some oneAddressBytes := serializeMessage_oneAddress
    have hlength : writeLe 2 65536 = writeLe 2 0 := by decide
    rw [dumpEntry, ofString_replicate, hserialize, Option.map_some, List.length_replicate, hlength,
      show 65536 = 8 + (4 + (4 + 65520)) by rfl, List.replicate_add, List.replicate_add, List.replicate_add]
    simp only [List.append_assoc]
    rfl
  have hread : ∀ k (rest : List UInt8),
      readLe k (List.replicate k 97 ++ rest) = some (valueLe (List.replicate k 97), rest) := by
    intro k rest
    rw [readLe, block_append_of_length (List.length_replicate (n := k)), Option.map_some]
  have hcut : ∀ rest : List UInt8, rest.length = 65571 →
      block (valueLe (List.replicate 4 97)) rest = none := by
    intro rest hrest
    have hvalue : valueLe (List.replicate 4 97) = 1633771873 := by decide
    rw [block, hvalue, if_neg (by omega)]
  have hlost : ∀ rest : List UInt8, rest.length = 65571 →
      loadEntries oneAddressWire 0 1 (writeLe 2 0 ++ (List.replicate 8 97 ++ (List.replicate 4 97 ++
        (List.replicate 4 97 ++ rest)))) = [] := by
    intro rest hrest
    have hkey : block 0 (List.replicate 8 97 ++ (List.replicate 4 97 ++ (List.replicate 4 97 ++ rest))) =
        some ([], List.replicate 8 97 ++ (List.replicate 4 97 ++ (List.replicate 4 97 ++ rest))) :=
      block_append [] _
    refine loadEntries_of_readEntry_eq_none ?_
    simp only [readEntry, Option.bind_eq_bind, readLe_writeLe (show 0 < 256 ^ 2 by decide), Option.bind_some,
      hkey, hread, hcut rest hrest, Option.bind_none]
  rw [dumpCache, List.mapM_cons, hdump]
  simp only [List.mapM_nil, Option.pure_def, Option.bind_eq_bind, Option.bind_some, Option.map_some,
    List.flatten_cons, List.flatten_nil, List.append_nil]
  rw [loadCache_dump (by decide)]
  rw [show unixNow 0 = 0 from rfl, show [(String.ofList (List.replicate 65536 'a'), stored)].length = 1
    from rfl, hlost]
  simp only [List.length_append, List.length_replicate, length_writeLe]
  rfl

/-- One entry, of which only the header is there; it announces `2 ^ 32 - 1` bytes at position 30. -/
def headerOnly : List UInt8 :=
  MAGIC ++ (writeLe 4 1 ++ (writeLe 2 0 ++ (writeLe 8 0 ++ (writeLe 4 300 ++ writeLe 4 0xFFFFFFFF))))

/-- With positions of 32 bits the end of the announced message wraps to 29, and the access is out of range. With any, the entry whose key has 65536 bytes is lost. -/
theorem position_wraps_and_long_key_lost :
    InMemory 32 headerOnly ∧ loadBuffer oneAddressWire 32 0 headerOnly = none ∧
      loadBuffer oneAddressWire 64 0 headerOnly = some (.ok []) ∧
      (dumpCache oneAddressWire [(String.ofList (List.replicate 65536 'a'), stored)]).map
          (fun bytes => loadCache oneAddressWire 0 (some bytes)) = some (.ok []) ∧ stored.Lives 0 :=
  ⟨by decide +kernel, by decide +kernel, by decide +kernel, long_key_lost⟩

end Persistence

end Lazydns
