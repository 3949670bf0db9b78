import Lazydns.Plugin.PersistenceRules

/-!
# Reading a dump by position

`load_cache` walks over the buffer by position, with a length check before each access. On any bytes its loop and the readers of `readEntry` do the same, and no access is out of range, except where a position cannot count as far as a header says that the message goes.
-/

namespace Lazydns

open Dns Bytes

namespace Persistence

variable {wire : WireCodec} {now : Nat}

/-! ### Headers -/

/-- All that `readEntry` reads before the message bytes. -/
def readHead (bytes : List UInt8) : Option ((String × Nat × Nat × Nat) × List UInt8) := do
  let (keyLen, bytes) ← readLe 2 bytes
  let (key, bytes) ← block keyLen bytes
  let (cachedAtUnix, bytes) ← readLe 8 bytes
  let (originalTtl, bytes) ← readLe 4 bytes
  let (msgLen, bytes) ← readLe 4 bytes
  return ((toStringLossy key, cachedAtUnix, originalTtl, msgLen), bytes)

theorem readEntry_eq (bytes : List UInt8) :
    readEntry bytes = (readHead bytes).bind fun (head, rest) =>
      (block head.2.2.2 rest).map fun (msgBytes, rest) =>
        ((head.1, head.2.1, head.2.2.1, msgBytes), rest) := by
  simp only [readEntry, readHead, Option.bind_eq_bind, Option.pure_def, Option.bind_assoc,
    Option.bind_some, Option.map_eq_bind, Function.comp_def]

theorem extends_readEntry : Extends readEntry :=
  (extends_readLe 2).bind fun keyLen => (extends_block keyLen).bind fun key =>
    (extends_readLe 8).bind fun cachedAtUnix => (extends_readLe 4).bind fun originalTtl =>
      (extends_readLe 4).bind fun msgLen => (extends_block msgLen).bind fun msgBytes =>
        extends_pure (toStringLossy key, cachedAtUnix, originalTtl, msgBytes)

section

variable {bits pos count : Nat} {buf : List UInt8}

/-- No entry that is reached announces a message that ends beyond what a position can count. -/
def NoWrap (bits total : Nat) : Nat → List UInt8 → Prop
  | 0, _ => True
  | count + 1, bytes =>
    match readHead bytes with
    | none => True
    | some (head, rest) => total - rest.length + head.2.2.2 < 2 ^ bits ∧
      match block head.2.2.2 rest with
      | none => True
      | some (_, rest) => NoWrap bits total count rest

theorem advance_of_lt {n : Nat} (h : pos + n < 2 ^ bits) : advance bits pos n = pos + n :=
  Nat.mod_eq_of_lt h

/-- A read at a position that is checked to be in range, and what the reader there does. -/
theorem readLe_drop {n : Nat} (h : pos + n ≤ buf.length) :
    ∃ x, slice buf pos (pos + n) = some x ∧ valueLe x < 256 ^ n ∧
      readLe n (buf.drop pos) = some (valueLe x, buf.drop (pos + n)) := by
  obtain ⟨x, hslice, hblock⟩ := block_drop h
  refine ⟨x, hslice, ?_, by rw [readLe, hblock, Option.map_some]⟩
  have hlength : x.length = n := (length_of_slice hslice).trans (Nat.add_sub_cancel_left pos n)
  exact hlength ▸ valueLe_lt x

theorem readLe_drop_eq_none {n : Nat} (hpos : pos ≤ buf.length) (h : buf.length < pos + n) :
    readLe n (buf.drop pos) = none := by
  rw [readLe, block_drop_eq_none hpos h, Option.map_none]

/-- The entry of a header and a message, in front of the loaded ones, unless it is skipped. -/
def keep (wire : WireCodec) (unixNow : Nat) (head : String × Nat × Nat × Nat) (msgBytes : List UInt8)
    (loaded : List PersistedEntry) : List PersistedEntry :=
  if unixNow - head.2.1 ≥ head.2.2.1 then loaded
  else match wire.parseMessage msgBytes with
    | some response => ⟨head.1, response, head.2.1, head.2.2.1⟩ :: loaded
    | none => loaded

/-- What one round of the loop can do. -/
inductive Round (wire : WireCodec) (bits unixNow : Nat) (buf : List UInt8) (count pos : Nat) : Prop where
  | noHead (hhead : readHead (buf.drop pos) = none)
      (hloop : loadLoop wire bits unixNow buf (count + 1) pos = some [])
  | wraps {head : String × Nat × Nat × Nat} {stop : Nat}
      (hhead : readHead (buf.drop pos) = some (head, buf.drop stop)) (hstop : stop ≤ buf.length)
      (hwrap : 2 ^ bits ≤ stop + head.2.2.2)
      (hloop : loadLoop wire bits unixNow buf (count + 1) pos = none)
  | cutOff {head : String × Nat × Nat × Nat} {stop : Nat}
      (hhead : readHead (buf.drop pos) = some (head, buf.drop stop)) (hstop : stop ≤ buf.length)
      (hwrap : stop + head.2.2.2 < 2 ^ bits) (hcut : block head.2.2.2 (buf.drop stop) = none)
      (hloop : loadLoop wire bits unixNow buf (count + 1) pos = some [])
  | complete {head : String × Nat × Nat × Nat} {stop : Nat} {msgBytes : List UInt8}
      (hhead : readHead (buf.drop pos) = some (head, buf.drop stop))
      (hstop : stop + head.2.2.2 ≤ buf.length) (hwrap : stop + head.2.2.2 < 2 ^ bits)
      (hblock : block head.2.2.2 (buf.drop stop) = some (msgBytes, buf.drop (stop + head.2.2.2)))
      (hloop : loadLoop wire bits unixNow buf (count + 1) pos =
        (loadLoop wire bits unixNow buf count (stop + head.2.2.2)).map
          (keep wire unixNow head msgBytes))

theorem map_keep {unixNow : Nat} (head : String × Nat × Nat × Nat) (msgBytes : List UInt8)
    (loaded : Option (List PersistedEntry)) :
    loaded.map (keep wire unixNow head msgBytes) = loaded.bind fun loaded =>
      if unixNow - head.2.1 ≥ head.2.2.1 then some loaded
      else match wire.parseMessage msgBytes with
        | some response => some (⟨head.1, response, head.2.1, head.2.2.1⟩ :: loaded)
        | none => some loaded := by
  cases loaded with
  | none => rfl
  | some loaded =>
    rw [Option.map_some, Option.bind_some, keep]
    split
    · rfl
    · split <;> rfl

/-- The length check and the message, once the header has been read. -/
theorem Round.of_head {unixNow stop : Nat} {head : String × Nat × Nat × Nat} (hstop : stop ≤ buf.length)
    (hlen : head.2.2.2 < 2 ^ bits) (hbuf : buf.length < 2 ^ bits)
    (hhead : readHead (buf.drop pos) = some (head, buf.drop stop))
    (hloop : loadLoop wire bits unixNow buf (count + 1) pos =
      if buf.length < advance bits stop head.2.2.2 then some []
      else (slice buf stop (advance bits stop head.2.2.2)).bind fun msgBytes =>
        (loadLoop wire bits unixNow buf count (advance bits stop head.2.2.2)).map
          (keep wire unixNow head msgBytes)) : Round wire bits unixNow buf count pos := by
  by_cases hwrap : stop + head.2.2.2 < 2 ^ bits
  · rw [advance_of_lt hwrap] at hloop
    by_cases hcut : buf.length < stop + head.2.2.2
    · rw [if_pos hcut] at hloop
      exact .cutOff hhead hstop hwrap (block_drop_eq_none hstop hcut) hloop
    · obtain ⟨msgBytes, hslice, hblock⟩ := block_drop (Nat.le_of_not_lt hcut)
      rw [if_neg hcut, hslice, Option.bind_some] at hloop
      exact .complete hhead (Nat.le_of_not_lt hcut) hwrap hblock hloop
  · -- the sum wraps to a position before the message
    have hwrapped : advance bits stop head.2.2.2 = stop + head.2.2.2 - 2 ^ bits := by
      rw [advance, Nat.mod_eq_sub_mod (Nat.le_of_not_lt hwrap), Nat.mod_eq_of_lt (by omega)]
    rw [hwrapped, if_neg (by omega), slice_eq_none (by omega)] at hloop
    exact .wraps hhead hstop (Nat.le_of_not_lt hwrap) hloop

theorem round (hpos : pos ≤ buf.length) (hbits : 32 ≤ bits) (hbuf : buf.length < 2 ^ (bits - 1)) :
    Round wire bits now buf count pos := by
  have hroom : buf.length + 2 ^ 16 ≤ 2 ^ bits := by
    have hhalf : 2 ^ bits = 2 ^ (bits - 1) * 2 := by rw [← pow_succ]; congr 1; omega
    have hword : 2 ^ 16 ≤ 2 ^ (bits - 1) := Nat.pow_le_pow_right (by decide) (by omega)
    omega
  have hword : 2 ^ 32 ≤ 2 ^ bits := Nat.pow_le_pow_right (by decide) hbits
  have hadv : ∀ i n, i ≤ buf.length → n < 2 ^ 16 → advance bits i n = i + n := fun i n hi hn =>
    advance_of_lt (by omega)
  have hadv2 := hadv pos 2 hpos (by decide)
  by_cases h2 : buf.length < pos + 2
  · refine .noHead ?_ ?_
    · simp [readHead, readLe_drop_eq_none hpos h2]
    · simp [loadLoop, hadv2, h2]
  obtain ⟨keyLen, hkeyLen, hsmall, hreadKeyLen⟩ := readLe_drop (Nat.le_of_not_lt h2)
  by_cases hk : buf.length < pos + 2 + valueLe keyLen
  · refine .noHead ?_ ?_
    · simp [readHead, hreadKeyLen, block_drop_eq_none (Nat.le_of_not_lt h2) hk]
    · simp [loadLoop, hadv2, h2, hkeyLen, hadv (pos + 2) (valueLe keyLen) (by omega) hsmall, hk]
  have hadvKey := hadv (pos + 2) (valueLe keyLen) (by omega) hsmall
  obtain ⟨key, hkey, hreadKey⟩ := block_drop (Nat.le_of_not_lt hk)
  generalize pos + 2 + valueLe keyLen = mid at hk hkey hreadKey hadvKey
  have hadv12 := hadv mid 12 (Nat.le_of_not_lt hk) (by decide)
  by_cases h12 : buf.length < mid + 12
  · refine .noHead ?_ ?_
    · by_cases h8 : buf.length < mid + 8
      · simp [readHead, hreadKeyLen, hreadKey, readLe_drop_eq_none (Nat.le_of_not_lt hk) h8]
      · obtain ⟨cachedAt, -, -, hreadCachedAt⟩ := readLe_drop (Nat.le_of_not_lt h8)
        have hnone := readLe_drop_eq_none (n := 4) (Nat.le_of_not_lt h8) (by omega)
        simp [readHead, hreadKeyLen, hreadKey, hreadCachedAt, hnone]
    · simp [loadLoop, hadv2, h2, hkeyLen, hadvKey, hk, hkey, hadv12, h12]
  obtain ⟨cachedAt, hcachedAt, -, hreadCachedAt⟩ := readLe_drop (n := 8) (show mid + 8 ≤ buf.length by omega)
  obtain ⟨ttl, httl, -, hreadTtl⟩ := readLe_drop (n := 4) (show mid + 8 + 4 ≤ buf.length by omega)
  have hadvCachedAt := hadv mid 8 (by omega) (by decide)
  have hadvTtl := hadv (mid + 8) 4 (by omega) (by decide)
  have hadv4 := hadv (mid + 12) 4 (by omega) (by decide)
  by_cases h4 : buf.length < mid + 12 + 4
  · refine .noHead ?_ ?_
    · have hnone := readLe_drop_eq_none (Nat.le_of_not_lt h12) h4
      simp [readHead, hreadKeyLen, hreadKey, hreadCachedAt, hreadTtl, hnone]
    · simp [loadLoop, hadv2, h2, hkeyLen, hadvKey, hk, hkey, hadv12, h12,
        hadvCachedAt, hcachedAt, hadvTtl, httl, hadv4, h4]
  obtain ⟨msgLen, hmsgLen, hlen, hreadMsgLen⟩ := readLe_drop (Nat.le_of_not_lt h4)
  have hhead : readHead (buf.drop pos) = some ((toStringLossy key, valueLe cachedAt, valueLe ttl, valueLe msgLen),
      buf.drop (mid + 12 + 4)) := by
    simp [readHead, hreadKeyLen, hreadKey, hreadCachedAt, hreadTtl, hreadMsgLen]
  have hloop : loadLoop wire bits now buf (count + 1) pos =
      if buf.length < advance bits (mid + 12 + 4) (valueLe msgLen) then some []
      else (slice buf (mid + 12 + 4) (advance bits (mid + 12 + 4) (valueLe msgLen))).bind fun msgBytes =>
        (loadLoop wire bits now buf count (advance bits (mid + 12 + 4) (valueLe msgLen))).map
          (keep wire now (toStringLossy key, valueLe cachedAt, valueLe ttl, valueLe msgLen) msgBytes) := by
    simp only [loadLoop, hadv2, h2, hkeyLen, hadvKey, hk, hkey, hadv12, h12, hadvCachedAt, hcachedAt,
      hadvTtl, httl, hadv4, h4, hmsgLen, ↓reduceIte, Option.bind_eq_bind, Option.bind_some, Option.pure_def]
    refine ite_congr rfl (fun _ => rfl) fun _ => congrArg (Option.bind _) (funext fun msgBytes => ?_)
    exact .symm (map_keep _ msgBytes _)
  exact .of_head (by omega) (hlen.trans_le hword) (by omega) hhead hloop

/-! ### The loop -/

theorem loadEntries_of_readHead {unixNow : Nat} {head : String × Nat × Nat × Nat}
    {bytes rest rest' msgBytes : List UInt8} (hhead : readHead bytes = some (head, rest))
    (hblock : block head.2.2.2 rest = some (msgBytes, rest')) :
    loadEntries wire unixNow (count + 1) bytes =
      keep wire unixNow head msgBytes (loadEntries wire unixNow count rest') := by
  have hread : readEntry bytes = some ((head.1, head.2.1, head.2.2.1, msgBytes), rest') := by
    rw [readEntry_eq, hhead, Option.bind_some]
    dsimp only
    rw [hblock, Option.map_some]
  rw [loadEntries, hread]
  rfl

theorem loadEntries_of_readEntry_eq_none {unixNow : Nat} {bytes : List UInt8}
    (h : readEntry bytes = none) : loadEntries wire unixNow (count + 1) bytes = [] := by
  rw [loadEntries, h]

/-- The loop and the readers load the same, unless a sum of positions wraps: then there is an access out of range. -/
theorem loadLoop_eq (hpos : pos ≤ buf.length) (hbits : 32 ≤ bits) (hbuf : buf.length < 2 ^ (bits - 1)) :
    (NoWrap bits buf.length count (buf.drop pos) →
      loadLoop wire bits now buf count pos = some (loadEntries wire now count (buf.drop pos))) ∧
    (¬ NoWrap bits buf.length count (buf.drop pos) → loadLoop wire bits now buf count pos = none) := by
  induction count generalizing pos with
  | zero => exact ⟨fun _ => rfl, fun h => absurd trivial h⟩
  | succ count ih =>
    have hstart : ∀ stop, stop ≤ buf.length → buf.length - (buf.drop stop).length = stop := by
      intro stop hstop
      rw [List.length_drop]
      omega
    have hround : Round wire bits now buf count pos := round hpos hbits hbuf
    rcases hround with
      ⟨hhead, hloop⟩ | ⟨hhead, hstop, hwrap, hloop⟩ | ⟨hhead, hstop, hwrap, hcut, hloop⟩ |
      ⟨hhead, hstop, hwrap, hblock, hloop⟩
    · rw [NoWrap, hhead, hloop, loadEntries_of_readEntry_eq_none (by rw [readEntry_eq, hhead]; rfl)]
      exact ⟨fun _ => rfl, fun h => absurd trivial h⟩
    · rw [NoWrap, hhead, hloop]
      dsimp only
      rw [hstart _ hstop]
      exact ⟨fun h => absurd h.1 (Nat.not_lt_of_le hwrap), fun _ => rfl⟩
    · rw [NoWrap, hhead, hloop]
      dsimp only
      rw [hstart _ hstop, hcut, loadEntries_of_readEntry_eq_none]
      · exact ⟨fun _ => rfl, fun h => absurd ⟨hwrap, trivial⟩ h⟩
      · rw [readEntry_eq, hhead, Option.bind_some]
        dsimp only
        rw [hcut, Option.map_none]
    · obtain ⟨hsome, hnone⟩ := ih hstop
      rw [NoWrap, hhead, hloop, loadEntries_of_readHead hhead hblock]
      dsimp only
      rw [hstart _ (by omega), hblock]
      dsimp only
      constructor
      · intro h
        rw [hsome h.2, Option.map_some]
      · intro h
        rw [hnone fun hrest => h ⟨hwrap, hrest⟩, Option.map_none]

end

/-! ### The file -/

/-- A position can count as far as every message goes that the file announces. -/
def Countable (bits : Nat) (buf : List UInt8) : Prop :=
  12 ≤ buf.length → buf.take 8 = MAGIC →
    NoWrap bits buf.length (valueLe ((buf.drop 8).take 4)) (buf.drop 12)

theorem loadBuffer_eq {bits : Nat} {buf : List UInt8} (hbits : 32 ≤ bits)
    (hbuf : buf.length < 2 ^ (bits - 1)) :
    (Countable bits buf → loadBuffer wire bits now buf = some (loadCache wire now (some buf))) ∧
    (¬ Countable bits buf → loadBuffer wire bits now buf = none) := by
  rw [loadBuffer, loadCache, Countable]
  by_cases hshort : buf.length < 12
  · rw [if_pos hshort, if_pos hshort]
    exact ⟨fun _ => rfl, fun h => absurd (fun hlong => absurd hshort (Nat.not_lt_of_le hlong)) h⟩
  · have hmagic : slice buf 0 8 = some (buf.take 8) := by
      rw [slice, if_pos (by omega)]
      rfl
    have hcount : slice buf 8 12 = some ((buf.drop 8).take 4) := by
      rw [slice, if_pos (by omega)]
    have hloop := @loadLoop_eq wire (unixNow now) bits 12 (valueLe ((buf.drop 8).take 4)) buf
      (Nat.le_of_not_lt hshort) hbits hbuf
    rw [if_neg hshort, if_neg hshort, hmagic, hcount]
    simp only [Option.bind_eq_bind, Option.bind_some, Option.pure_def]
    by_cases hmagic' : buf.take 8 = MAGIC
    · rw [if_neg (not_not_intro hmagic'), if_neg (not_not_intro hmagic')]
      constructor
      · intro h
        rw [hloop.1 (h (Nat.le_of_not_lt hshort) hmagic')]
        rfl
      · intro h
        rw [hloop.2 fun hwrap => h fun _ _ => hwrap]
        rfl
    · rw [if_pos hmagic', if_pos hmagic']
      exact ⟨fun _ => rfl, fun h => absurd (fun _ heq => absurd heq hmagic') h⟩

theorem readHead_lt {bytes rest : List UInt8} {head : String × Nat × Nat × Nat}
    (h : readHead bytes = some (head, rest)) : head.2.2.2 < 2 ^ 32 := by
  obtain ⟨_, -, h⟩ := Option.bind_eq_some_iff.mp h
  obtain ⟨_, -, h⟩ := Option.bind_eq_some_iff.mp h
  obtain ⟨_, -, h⟩ := Option.bind_eq_some_iff.mp h
  obtain ⟨_, -, h⟩ := Option.bind_eq_some_iff.mp h
  obtain ⟨_, hlen, h⟩ := Option.bind_eq_some_iff.mp h
  cases Option.some.inj h
  exact readLe_lt hlen

theorem noWrap_of_wide {bits total count : Nat} {bytes : List UInt8}
    (htotal : total + 2 ^ 32 ≤ 2 ^ bits) : NoWrap bits total count bytes := by
  induction count generalizing bytes with
  | zero => trivial
  | succ count ih =>
    rw [NoWrap]
    cases hhead : readHead bytes with
    | none => trivial
    | some r =>
      obtain ⟨head, rest⟩ := r
      have hlen := readHead_lt hhead
      refine ⟨by omega, ?_⟩
      cases block head.2.2.2 rest with
      | none => trivial
      | some r' => exact ih

/-- Positions of 64 bits can count as far as any header says. -/
theorem countable_64 {buf : List UInt8} (hbuf : buf.length < 2 ^ 63) : Countable 64 buf :=
  fun _ _ => noWrap_of_wide (by omega)

end Persistence

end Lazydns
