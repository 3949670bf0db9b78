import Mathlib.Algebra.Order.Ring.Nat

/-!
# Numbers, blocks and text in byte strings

Numbers are written with their lowest byte first, in a fixed number of bytes; what does not fit is cut off. Readers return what they read and the rest, or fail where the bytes end. Text is UTF-8; reading it never fails, but puts a replacement character where the bytes are not well formed.
-/

namespace Bytes

def writeLe : Nat → Nat → List UInt8
  | 0, _ => []
  | k + 1, n => UInt8.ofNat n :: writeLe k (n / 256)

/-- The number whose bytes these are, lowest first. -/
def valueLe : List UInt8 → Nat
  | [] => 0
  | b :: bytes => b.toNat + 256 * valueLe bytes

def block (n : Nat) (bytes : List UInt8) : Option (List UInt8 × List UInt8) :=
  if n ≤ bytes.length then some (bytes.take n, bytes.drop n) else none

def readLe (k : Nat) (bytes : List UInt8) : Option (Nat × List UInt8) :=
  (block k bytes).map fun r => (valueLe r.1, r.2)

@[simp] theorem length_writeLe (k n : Nat) : (writeLe k n).length = k := by
  induction k generalizing n with
  | zero => rfl
  | succ k ih => rw [writeLe, List.length_cons, ih]

theorem valueLe_writeLe (k n : Nat) : valueLe (writeLe k n) = n % 256 ^ k := by
  induction k generalizing n with
  | zero => rw [writeLe, valueLe, pow_zero, Nat.mod_one]
  | succ k ih =>
    have hbyte : (UInt8.ofNat n).toNat = n % 256 := UInt8.toNat_ofNat'
    rw [writeLe, valueLe, ih, hbyte, pow_succ', Nat.mod_mul]

theorem valueLe_lt (bytes : List UInt8) : valueLe bytes < 256 ^ bytes.length := by
  induction bytes with
  | nil => exact Nat.one_pos
  | cons b bytes ih =>
    have hb : b.toNat < 256 := b.toNat_lt
    rw [valueLe, List.length_cons, pow_succ']
    omega

theorem readLe_lt {k n : Nat} {bytes rest : List UInt8} (h : readLe k bytes = some (n, rest)) :
    n < 256 ^ k := by
  obtain ⟨⟨x, rest'⟩, hblock, heq⟩ := Option.map_eq_some_iff.mp h
  cases heq
  rw [block] at hblock
  split at hblock
  · rename_i hk
    cases hblock
    exact (valueLe_lt _).trans_eq (by rw [List.length_take, Nat.min_eq_left hk])
  · cases hblock

@[simp] theorem block_append (bytes rest : List UInt8) :
    block bytes.length (bytes ++ rest) = some (bytes, rest) := by
  rw [block, if_pos (by rw [List.length_append]; exact Nat.le_add_right _ _), List.take_left',
    List.drop_left'] <;> rfl

theorem block_append_of_length {n : Nat} {bytes : List UInt8} (hn : bytes.length = n)
    (rest : List UInt8) : block n (bytes ++ rest) = some (bytes, rest) := by
  rw [← hn, block_append]

/-- Reading a number gives back what was written, if it fits. -/
theorem readLe_writeLe {k n : Nat} (hn : n < 256 ^ k) (rest : List UInt8) :
    readLe k (writeLe k n ++ rest) = some (n, rest) := by
  rw [readLe, block_append_of_length (length_writeLe k n), Option.map_some, valueLe_writeLe,
    Nat.mod_eq_of_lt hn]

/-! ### Readers -/

/-- What a reader takes does not depend on what comes after it. -/
def Extends {α : Type} (read : List UInt8 → Option (α × List UInt8)) : Prop :=
  ∀ bytes x rest more, read bytes = some (x, rest) → read (bytes ++ more) = some (x, rest ++ more)

theorem extends_block (n : Nat) : Extends (block n) := by
  intro bytes x rest more h
  rw [block] at h
  by_cases hn : n ≤ bytes.length
  · rw [if_pos hn] at h
    cases h
    rw [block, if_pos (by rw [List.length_append]; omega), List.take_append_of_le_length hn,
      List.drop_append_of_le_length hn]
  · rw [if_neg hn] at h
    cases h

theorem extends_readLe (k : Nat) : Extends (readLe k) := by
  intro bytes x rest more h
  obtain ⟨⟨y, rest'⟩, hblock, heq⟩ := Option.map_eq_some_iff.mp h
  cases heq
  rw [readLe, extends_block k _ _ _ more hblock]
  rfl

theorem extends_pure {α : Type} (x : α) : Extends fun bytes => some (x, bytes) := by
  intro bytes y rest more h
  cases h
  rfl

theorem Extends.bind {α β : Type} {read : List UInt8 → Option (α × List UInt8)}
    {next : α → List UInt8 → Option (β × List UInt8)} (hread : Extends read)
    (hnext : ∀ x, Extends (next x)) :
    Extends fun bytes => (read bytes).bind fun r => next r.1 r.2 := by
  intro bytes y rest more h
  obtain ⟨⟨x, rest'⟩, hx, hy⟩ := Option.bind_eq_some_iff.mp h
  dsimp only
  rw [hread bytes x rest' more hx, Option.bind_some]
  exact hnext x rest' y rest more hy

/-- A reader fails where what it takes is cut off. -/
theorem Extends.take_eq_none {α : Type} {read : List UInt8 → Option (α × List UInt8)} {x : α}
    {bytes rest : List UInt8} {m : Nat} (hread : Extends read)
    (h : read (bytes ++ rest) = some (x, rest)) (hm : m < bytes.length) :
    read ((bytes ++ rest).take m) = none := by
  cases hcut : read ((bytes ++ rest).take m) with
  | none => rfl
  | some r =>
    have hwhole := hread _ r.1 r.2 ((bytes ++ rest).drop m) hcut
    rw [List.take_append_drop, h] at hwhole
    have hrest : rest = r.2 ++ (bytes ++ rest).drop m := congrArg Prod.snd (Option.some.inj hwhole)
    have hlength := congrArg List.length hrest
    rw [List.length_append, List.length_drop, List.length_append] at hlength
    omega

/-! ### Positions -/

/-- `bytes[i..j]`; out of range, it fails. -/
def slice (bytes : List UInt8) (i j : Nat) : Option (List UInt8) :=
  if i ≤ j ∧ j ≤ bytes.length then some ((bytes.drop i).take (j - i)) else none

theorem slice_eq_none {bytes : List UInt8} {i j : Nat} (h : j < i) : slice bytes i j = none :=
  if_neg fun hij => absurd hij.1 (Nat.not_le_of_lt h)

theorem length_of_slice {bytes x : List UInt8} {i j : Nat} (h : slice bytes i j = some x) :
    x.length = j - i := by
  rw [slice] at h
  split at h
  · rename_i hij
    cases h
    rw [List.length_take, List.length_drop]
    omega
  · cases h

theorem block_drop {bytes : List UInt8} {i n : Nat} (h : i + n ≤ bytes.length) :
    ∃ x, slice bytes i (i + n) = some x ∧ block n (bytes.drop i) = some (x, bytes.drop (i + n)) := by
  refine ⟨(bytes.drop i).take n, ?_, ?_⟩
  · rw [slice, if_pos ⟨Nat.le_add_right i n, h⟩, Nat.add_sub_cancel_left]
  · rw [block, if_pos (by rw [List.length_drop]; omega), List.drop_drop]

theorem block_drop_eq_none {bytes : List UInt8} {i n : Nat} (hi : i ≤ bytes.length)
    (h : bytes.length < i + n) : block n (bytes.drop i) = none := by
  rw [block, if_neg (by rw [List.length_drop]; omega)]

/-! ### Text -/

def ofString (s : String) : List UInt8 := s.toByteArray.data.toList

theorem ofString_ofList (l : List Char) :
    ofString (String.ofList l) = l.flatMap String.utf8EncodeChar := by
  rw [ofString, String.toByteArray_ofList, List.utf8Encode, List.data_toByteArray]

/-- The ranges of the bytes that follow a first byte in well-formed UTF-8. -/
def followers (b : UInt8) : Option (List (UInt8 × UInt8)) :=
  if b < 0x80 then some []
  else if b < 0xC2 then none
  else if b < 0xE0 then some [(0x80, 0xBF)]
  else if b < 0xF0 then
    some [(if b = 0xE0 then 0xA0 else 0x80, if b = 0xED then 0x9F else 0xBF), (0x80, 0xBF)]
  else if b < 0xF5 then
    some [(if b = 0xF0 then 0x90 else 0x80, if b = 0xF4 then 0x8F else 0xBF), (0x80, 0xBF), (0x80, 0xBF)]
  else none

/-- How many of the next bytes are in their ranges. -/
def matching : List (UInt8 × UInt8) → List UInt8 → Nat
  | (low, high) :: ranges, b :: bytes =>
    if low ≤ b ∧ b ≤ high then matching ranges bytes + 1 else 0
  | _, _ => 0

def charOf (first : UInt8) (rest : List UInt8) : Char :=
  Char.ofNat (rest.foldl (fun n b => n * 64 + b.toNat % 64)
    (first.toNat % 2 ^ (if rest = [] then 7 else 6 - rest.length)))

/-- One replacement character for each longest piece that could have begun a character. The number counts bytes that are already used. -/
def lossyChars : Nat → List UInt8 → List Char
  | _, [] => []
  | used + 1, _ :: bytes => lossyChars used bytes
  | 0, b :: bytes =>
    match followers b with
    | none => Char.ofNat 0xFFFD :: lossyChars 0 bytes
    | some ranges =>
      let n := matching ranges bytes
      (if n = ranges.length then charOf b (bytes.take n) else Char.ofNat 0xFFFD) :: lossyChars n bytes

/-- `String::from_utf8_lossy`. -/
def toStringLossy (bytes : List UInt8) : String :=
  (String.fromUTF8? ⟨bytes.toArray⟩).getD (String.ofList (lossyChars 0 bytes))

@[simp] theorem toStringLossy_ofString (s : String) : toStringLossy (ofString s) = s := by
  have hbytes : (⟨(ofString s).toArray⟩ : ByteArray) = s.toByteArray := by
    rw [ofString, Array.toArray_toList]
  rw [toStringLossy, hbytes, String.fromUTF8?, dif_pos s.isValidUTF8]
  rfl

def IsUtf8 (bytes : List UInt8) : Prop := (⟨bytes.toArray⟩ : ByteArray).IsValidUTF8

instance (bytes : List UInt8) : Decidable (IsUtf8 bytes) :=
  inferInstanceAs (Decidable (ByteArray.IsValidUTF8 _))

theorem isUtf8_ofString (s : String) : IsUtf8 (ofString s) := by
  rw [IsUtf8, ofString, Array.toArray_toList]
  exact s.isValidUTF8

/-- Reading text and writing it again keeps exactly the bytes that are UTF-8. -/
theorem ofString_toStringLossy_iff {bytes : List UInt8} :
    ofString (toStringLossy bytes) = bytes ↔ IsUtf8 bytes := by
  constructor
  · intro h
    rw [← h]
    exact isUtf8_ofString _
  · intro h
    have hvalid : (⟨bytes.toArray⟩ : ByteArray).IsValidUTF8 := h
    rw [toStringLossy, String.fromUTF8?, dif_pos hvalid]
    rfl

example : lossyChars 0 [72, 0xF0, 0x90, 0x80, 87, 0xC3, 0xA9] = [72, 0xFFFD, 87, 233].map Char.ofNat := by
  decide

end Bytes
