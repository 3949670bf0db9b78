import Lazydns.Lib.Bytes
import Lazydns.Lib.Tlv

/-!
# Frames on a byte stream

A frame is the 16-bit length of some data, highest byte first, and the data. A reader takes frames from the front of the bytes until there are none left, and fails where the last one is not complete.
-/

namespace Frames

open Tlv

/-- The frame as it is written; the length is cut off to 16 bits. -/
def frame (data : List UInt8) : List UInt8 := be16 (UInt16.ofNat data.length) ++ data

def readLength : List UInt8 → Option (Nat × List UInt8)
  | high :: low :: bytes => some ((value16 high low).toNat, bytes)
  | _ => none

def read (bytes : List UInt8) : Option (List UInt8 × List UInt8) :=
  (readLength bytes).bind fun r => Bytes.block r.1 r.2

theorem length_of_readLength {bytes rest : List UInt8} {n : Nat} (h : readLength bytes = some (n, rest)) :
    bytes.length = rest.length + 2 := by
  match bytes, h with
  | high :: low :: bytes, h => cases h; rfl

theorem length_of_read {bytes data rest : List UInt8} (h : read bytes = some (data, rest)) :
    rest.length < bytes.length := by
  obtain ⟨⟨n, body⟩, hlength, hblock⟩ := Option.bind_eq_some_iff.mp h
  have hbody := length_of_readLength hlength
  rw [Bytes.block] at hblock
  split at hblock
  · cases hblock
    rw [List.length_drop]
    dsimp only
    omega
  · cases hblock

/-- The data of all frames, where the bytes are nothing but frames. -/
def readAll (bytes : List UInt8) : Option (List (List UInt8)) :=
  if bytes = [] then some []
  else
    match h : read bytes with
    | none => none
    | some (data, rest) =>
      have := length_of_read h
      (readAll rest).map (data :: ·)
  termination_by bytes.length

@[simp] theorem readAll_nil : readAll [] = some [] := by rw [readAll, if_pos rfl]

theorem readAll_of_read {bytes data rest : List UInt8} (h : read bytes = some (data, rest)) :
    readAll bytes = (readAll rest).map (data :: ·) := by
  have hne : bytes ≠ [] := by
    rintro rfl
    cases h
  rw [readAll, if_neg hne]
  split
  · rename_i hnone
    rw [h] at hnone
    cases hnone
  · rename_i hsome
    rw [h] at hsome
    cases hsome
    rfl

theorem eq_nil_of_readAll {bytes : List UInt8} (h : readAll bytes = some []) : bytes = [] := by
  by_contra hne
  rw [readAll, if_neg hne] at h
  split at h
  · cases h
  · obtain ⟨_, -, hcons⟩ := Option.map_eq_some_iff.mp h
    cases hcons

theorem readLength_frame {data : List UInt8} (hdata : data.length ≤ 65535) (rest : List UInt8) :
    readLength (frame data ++ rest) = some (data.length, data ++ rest) := by
  have hlength : (UInt16.ofNat data.length).toNat = data.length := by
    rw [UInt16.toNat_ofNat', Nat.mod_eq_of_lt (Nat.lt_succ_of_le hdata)]
  simp only [frame, be16, List.cons_append, List.nil_append, readLength, value16_be16]
  rw [hlength]

theorem read_frame {data : List UInt8} (hdata : data.length ≤ 65535) (rest : List UInt8) :
    read (frame data ++ rest) = some (data, rest) := by
  rw [read, readLength_frame hdata, Option.bind_some, Bytes.block_append]

theorem readAll_frame {data : List UInt8} (hdata : data.length ≤ 65535) (rest : List UInt8) :
    readAll (frame data ++ rest) = (readAll rest).map (data :: ·) := readAll_of_read (read_frame hdata rest)

/-- Frames written one after the other are read back in their order. -/
theorem readAll_flatMap_frame {datas : List (List UInt8)} (h : ∀ data ∈ datas, data.length ≤ 65535) :
    readAll (datas.flatMap frame) = some datas := by
  induction datas with
  | nil => exact readAll_nil
  | cons data datas ih =>
    obtain ⟨hdata, hdatas⟩ := List.forall_mem_cons.mp h
    rw [List.flatMap_cons, readAll_frame hdata, ih hdatas, Option.map_some]

theorem frame_ne_nil (data : List UInt8) : frame data ≠ [] := List.cons_ne_nil _ _

end Frames
