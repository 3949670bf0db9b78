import Mathlib.Algebra.Order.BigOperators.Group.List
import Mathlib.Algebra.Order.Group.Nat
import Mathlib.Data.List.Perm.Subperm

/-!
# Code, length and value

An element is a 16-bit code, the 16-bit length of its value, and the value, both numbers with their highest byte first. What a reader takes from any bytes at all are the leading elements: those that are complete, up to the first one that the bytes end in. They are determined by the bytes, and writing elements that fit their lengths and reading them gives them back.
-/

namespace Tlv

abbrev Element := UInt16 × List UInt8

def be16 (n : UInt16) : List UInt8 := [UInt8.ofNat (n.toNat / 256), UInt8.ofNat n.toNat]

def value16 (high low : UInt8) : UInt16 := high.toUInt16 * 256 + low.toUInt16

/-- The element as it is written; the length is cut off to 16 bits. -/
def encodeOne (t : Element) : List UInt8 := be16 t.1 ++ be16 (UInt16.ofNat t.2.length) ++ t.2

def encode (ts : List Element) : List UInt8 := ts.flatMap encodeOne

def Fits (t : Element) : Prop := t.2.length < 2 ^ 16

instance (t : Element) : Decidable (Fits t) := inferInstanceAs (Decidable (_ < _))

/-- The first element and the bytes after it, if it is complete. -/
def read : List UInt8 → Option (Element × List UInt8)
  | c1 :: c2 :: l1 :: l2 :: bytes =>
    if bytes.length < (value16 l1 l2).toNat then none
    else some ((value16 c1 c2, bytes.take (value16 l1 l2).toNat), bytes.drop (value16 l1 l2).toNat)
  | _ => none

@[simp] theorem encode_nil : encode [] = [] := rfl

@[simp] theorem encode_cons (t : Element) (ts : List Element) :
    encode (t :: ts) = encodeOne t ++ encode ts := rfl

theorem encode_append (ts us : List Element) : encode (ts ++ us) = encode ts ++ encode us :=
  List.flatMap_append

/-! ### Numbers -/

theorem value16_toNat (high low : UInt8) : (value16 high low).toNat = high.toNat * 256 + low.toNat := by
  have hhigh : high.toNat < 256 := high.toNat_lt
  have hlow : low.toNat < 256 := low.toNat_lt
  have hbound : high.toNat * 256 + low.toNat < 2 ^ 16 := by omega
  rw [value16, UInt16.toNat_add, UInt16.toNat_mul, UInt8.toNat_toUInt16, UInt8.toNat_toUInt16,
    show (256 : UInt16).toNat = 256 from rfl, Nat.mod_add_mod, Nat.mod_eq_of_lt hbound]

theorem value16_be16 (n : UInt16) :
    value16 (UInt8.ofNat (n.toNat / 256)) (UInt8.ofNat n.toNat) = n := by
  apply UInt16.toNat_inj.mp
  have hn : n.toNat < 65536 := n.toNat_lt
  rw [value16_toNat, UInt8.toNat_ofNat', UInt8.toNat_ofNat']
  omega

theorem be16_value16 (high low : UInt8) : be16 (value16 high low) = [high, low] := by
  have hlow : low.toNat < 256 := low.toNat_lt
  have hhigh' : (high.toNat * 256 + low.toNat) / 256 = high.toNat := by omega
  have hlow' : UInt8.ofNat (high.toNat * 256 + low.toNat) = low := by
    apply UInt8.toNat_inj.mp
    rw [UInt8.toNat_ofNat']
    omega
  rw [be16, value16_toNat, hhigh', hlow', UInt8.ofNat_toNat]

/-! ### Reading one element -/

theorem read_encodeOne {t : Element} (ht : Fits t) (rest : List UInt8) :
    read (encodeOne t ++ rest) = some (t, rest) := by
  have hlength : (UInt16.ofNat t.2.length).toNat = t.2.length := by
    rw [UInt16.toNat_ofNat', Nat.mod_eq_of_lt ht]
  simp only [encodeOne, be16, List.cons_append, List.nil_append, read, value16_be16]
  rw [hlength, List.take_left, List.drop_left, if_neg]
  rw [List.length_append]
  omega

/-- An element can be read exactly where one that fits has been written. -/
theorem read_eq_some {bytes rest : List UInt8} {t : Element} :
    read bytes = some (t, rest) ↔ Fits t ∧ bytes = encodeOne t ++ rest := by
  constructor
  · intro h
    unfold read at h
    split at h
    · rename_i c1 c2 l1 l2 tail
      split at h
      · cases h
      · rename_i hlong
        cases h
        have hlength : (tail.take (value16 l1 l2).toNat).length = (value16 l1 l2).toNat := by
          rw [List.length_take]
          omega
        refine ⟨?_, ?_⟩
        · rw [Fits, hlength]
          exact (value16 l1 l2).toNat_lt
        · rw [encodeOne, hlength, UInt16.ofNat_toNat, be16_value16, be16_value16]
          simp only [List.cons_append, List.nil_append, List.take_append_drop]
    · cases h
  · rintro ⟨ht, rfl⟩
    exact read_encodeOne ht rest

theorem length_encodeOne (t : Element) : (encodeOne t).length = t.2.length + 4 := by
  rw [encodeOne, be16, be16]
  simp only [List.length_append, List.length_cons, List.length_nil]
  omega

def size : List Element → Nat
  | [] => 0
  | t :: ts => t.2.length + 4 + size ts

@[simp] theorem size_cons (t : Element) (ts : List Element) : size (t :: ts) = t.2.length + 4 + size ts := rfl

theorem length_encode (ts : List Element) : (encode ts).length = size ts := by
  induction ts with
  | nil => rfl
  | cons t ts ih => rw [encode_cons, List.length_append, length_encodeOne, ih, size_cons]

theorem size_append (ts us : List Element) : size (ts ++ us) = size ts + size us := by
  rw [← length_encode, encode_append, List.length_append, length_encode, length_encode]

theorem size_le_of_subperm {ts us : List Element} (h : ts.Subperm us) : size ts ≤ size us := by
  have hsum : ∀ vs, size vs = (vs.map fun t => t.2.length + 4).sum := by
    intro vs
    induction vs with
    | nil => rfl
    | cons v vs ih => rw [size_cons, ih, List.map_cons, List.sum_cons]
  obtain ⟨vs, hperm, hsub⟩ := h
  rw [hsum, hsum, ← (hperm.map _).sum_eq]
  exact (hsub.map _).sum_le_sum fun n _ => Nat.zero_le n

theorem length_of_read {bytes rest : List UInt8} {t : Element} (h : read bytes = some (t, rest)) :
    bytes.length = t.2.length + rest.length + 4 := by
  rw [(read_eq_some.mp h).2, List.length_append, length_encodeOne]
  omega

theorem drop_of_read {bytes rest : List UInt8} {t : Element} (h : read bytes = some (t, rest)) :
    bytes.drop (t.2.length + 4) = rest := by
  rw [(read_eq_some.mp h).2, ← length_encodeOne, List.drop_left]

/-! ### The leading elements -/

/-- The complete elements that the bytes begin with, and the bytes after them, which begin with none. -/
structure Leading (bytes : List UInt8) (ts : List Element) (rest : List UInt8) : Prop where
  eq : bytes = encode ts ++ rest
  fits : ∀ t ∈ ts, Fits t
  maximal : ∀ t rest', Fits t → rest ≠ encodeOne t ++ rest'

variable {bytes rest : List UInt8} {t : Element} {ts : List Element}

theorem leading_nil (h : read bytes = none) : Leading bytes [] bytes where
  eq := rfl
  fits := fun _ ht => absurd ht List.not_mem_nil
  maximal := fun t rest' ht heq => by
    rw [heq, read_encodeOne ht] at h
    cases h

theorem Leading.cons {tail : List UInt8} (h : read bytes = some (t, tail)) (hrest : Leading tail ts rest) :
    Leading bytes (t :: ts) rest where
  eq := by rw [(read_eq_some.mp h).2, hrest.eq, encode_cons, List.append_assoc]
  fits := fun u hu => by
    rcases List.mem_cons.mp hu with rfl | hu
    · exact (read_eq_some.mp h).1
    · exact hrest.fits u hu
  maximal := hrest.maximal

theorem Leading.read (h : Leading bytes ts rest) :
    (ts = [] ∧ Tlv.read bytes = none) ∨
      ∃ t ts' tail, ts = t :: ts' ∧ Tlv.read bytes = some (t, tail) ∧ Leading tail ts' rest := by
  cases ts with
  | nil =>
    refine .inl ⟨rfl, ?_⟩
    cases hread : Tlv.read bytes with
    | none => rfl
    | some r =>
      obtain ⟨t, tail⟩ := r
      obtain ⟨ht, heq⟩ := read_eq_some.mp hread
      exact absurd (h.eq.symm.trans heq) (h.maximal t tail ht)
  | cons t ts' =>
    have heq := h.eq
    rw [encode_cons, List.append_assoc] at heq
    refine .inr ⟨t, ts', encode ts' ++ rest, rfl, ?_, rfl, fun u hu => ?_, h.maximal⟩
    · rw [heq]
      exact read_encodeOne (h.fits t List.mem_cons_self) _
    · exact h.fits u (List.mem_cons_of_mem _ hu)

theorem exists_leading (bytes : List UInt8) : ∃ ts rest, Leading bytes ts rest := by
  induction hn : bytes.length using Nat.strongRecOn generalizing bytes with
  | ind n ih =>
    cases hread : read bytes with
    | none => exact ⟨[], bytes, leading_nil hread⟩
    | some r =>
      obtain ⟨t, tail⟩ := r
      have hlength := length_of_read hread
      obtain ⟨ts, rest, h⟩ := ih tail.length (by omega) tail rfl
      exact ⟨t :: ts, rest, h.cons hread⟩

/-- Elements that fit are what their encoding begins with, and nothing is left. -/
theorem leading_encode (h : ∀ t ∈ ts, Fits t) : Leading (encode ts) ts [] where
  eq := (List.append_nil _).symm
  fits := h
  maximal := fun t rest' _ heq => by
    rw [encodeOne, be16] at heq
    simp at heq

theorem Leading.size_le (h : Leading bytes ts rest) : size ts ≤ bytes.length := by
  rw [h.eq, List.length_append, length_encode]
  exact Nat.le_add_right _ _

theorem Leading.slice (h : Leading bytes ts rest) (ht : t ∈ ts) :
    ∃ front back, bytes = front ++ t.2 ++ back := by
  obtain ⟨before, after, rfl⟩ := List.append_of_mem ht
  refine ⟨encode before ++ (be16 t.1 ++ be16 (UInt16.ofNat t.2.length)), encode after ++ rest, ?_⟩
  rw [h.eq, encode_append, encode_cons, encodeOne]
  simp only [List.append_assoc]

end Tlv
