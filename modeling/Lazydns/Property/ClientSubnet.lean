import Mathlib.Data.List.GetD
import Lazydns.Plugin.Annotate

/-!
# What the client subnet option tells of an address

The option carries the leading bytes of an address, as many as the prefix length takes up. Where the prefix ends inside a byte the whole byte goes out, with the bits after the prefix.
-/

namespace Lazydns

open Dns

namespace EcsPlugin

/-! ### Bits -/

/-- A bit of an address, the most significant one first. -/
def addrBit : IpAddr → Nat → Bool
  | .v4 addr, i => addr.getMsbD i
  | .v6 addr, i => addr.getMsbD i

/-- A bit of a byte string, the most significant one of each byte first. -/
def fieldBit (bytes : List UInt8) (i : Nat) : Bool := (bytes.getD (i / 8) 0).toNat.testBit (7 - i % 8)

theorem length_leadingBytes (w n value : Nat) : (leadingBytes w n value).length = n := by
  rw [leadingBytes, List.length_map, List.length_range]

theorem fieldBit_leadingBytes {w n i : Nat} (value : Nat) (hn : n ≤ w) (hi : i < 8 * n) :
    fieldBit (leadingBytes w n value) i = value.testBit (8 * w - 1 - i) := by
  have hbyte : i / 8 < n := by omega
  have hpow : (256 : Nat) ^ (w - 1 - i / 8) = 2 ^ (8 * (w - 1 - i / 8)) := by
    rw [Nat.pow_mul]
  have hget : (leadingBytes w n value).getD (i / 8) 0 = UInt8.ofNat (value / 256 ^ (w - 1 - i / 8)) := by
    rw [leadingBytes, List.getD_eq_getElem _ _ (by rwa [List.length_map, List.length_range]), List.getElem_map,
      List.getElem_range]
  rw [fieldBit, hget, UInt8.toNat_ofNat', Nat.testBit_mod_two_pow, hpow, Nat.testBit_div_two_pow,
    decide_eq_true (by omega), Bool.true_and]
  congr 1
  omega

theorem eq_of_fieldBit {bytes bytes' : List UInt8} (hlength : bytes.length = bytes'.length)
    (hbits : ∀ i, i < 8 * bytes.length → fieldBit bytes i = fieldBit bytes' i) : bytes = bytes' := by
  refine List.ext_getElem hlength fun n hn hn' => UInt8.toNat_inj.mp ?_
  refine Nat.eq_of_testBit_eq fun j => ?_
  by_cases hj : j < 8
  · have hbit := hbits (8 * n + (7 - j)) (by omega)
    have hdiv : (8 * n + (7 - j)) / 8 = n := by omega
    have hmod : 7 - (8 * n + (7 - j)) % 8 = j := by omega
    rw [fieldBit, fieldBit, hdiv, hmod, List.getD_eq_getElem _ _ hn, List.getD_eq_getElem _ _ hn'] at hbit
    exact hbit
  · have hhigh : ∀ b : UInt8, b.toNat.testBit j = false := fun b =>
      Nat.testBit_lt_two_pow (Nat.lt_of_lt_of_le b.toNat_lt (Nat.pow_le_pow_right (by decide) (Nat.not_lt.mp hj)))
    rw [hhigh, hhigh]

/-! ### The option -/

/-- The configured prefix length for the family of an address. -/
def prefixLen (p : EcsPlugin) : IpAddr → Nat
  | .v4 _ => p.mask4
  | .v6 _ => p.mask6

def SameFamily : IpAddr → IpAddr → Prop
  | .v4 _, .v4 _ => True
  | .v6 _, .v6 _ => True
  | _, _ => False

/-- The option for an address, and the address field in it: what follows the family and the two prefix lengths. -/
def option (p : EcsPlugin) (ip : IpAddr) : UInt16 × List UInt8 := makeEcsOption p.mask4 p.mask6 ip

def addressField (p : EcsPlugin) (ip : IpAddr) : List UInt8 := (p.option ip).2.drop 4

/-- The option tells the prefix of an address and nothing else. -/
structure HidesHostBits (p : EcsPlugin) : Prop where
  same : ∀ ip ip', SameFamily ip ip' → (∀ i < p.prefixLen ip, addrBit ip i = addrBit ip' i) →
    p.option ip = p.option ip'
  length : ∀ ip, (p.addressField ip).length = (p.prefixLen ip + 7) / 8
  zero : ∀ ip i, p.prefixLen ip ≤ i → i < 8 * (p.addressField ip).length → fieldBit (p.addressField ip) i = false

theorem prefixLen_eq {p : EcsPlugin} {ip ip' : IpAddr} (hfamily : SameFamily ip ip') :
    p.prefixLen ip' = p.prefixLen ip := by
  cases ip <;> cases ip' <;> first | rfl | cases hfamily

/-- The masks of a plugin that was configured fit their families. -/
structure ValidMasks (p : EcsPlugin) : Prop where
  mask4 : p.mask4 ≤ 32
  mask6 : p.mask6 ≤ 128

theorem validMasks_of_new {parseIp : String → Option IpAddr} {args : EcsArgs} {p : EcsPlugin}
    (h : new parseIp args = .ok p) : p.ValidMasks := by
  rw [new] at h
  split at h
  · cases h
  · rename_i hmasks
    rw [not_or, Nat.not_lt, Nat.not_lt] at hmasks
    split at h
    · split at h
      · cases h
        exact ⟨hmasks.1, hmasks.2⟩
      · cases h
    · cases h
      exact ⟨hmasks.1, hmasks.2⟩

namespace ValidMasks

variable {p : EcsPlugin} (h : p.ValidMasks)

include h

theorem addressField_v4 (addr : BitVec 32) :
    p.addressField (.v4 addr) = leadingBytes 4 ((p.mask4 + 7) / 8) addr.toNat := by
  rw [addressField, option, makeEcsOption, Nat.min_eq_left h.mask4]
  rfl

theorem addressField_v6 (addr : BitVec 128) :
    p.addressField (.v6 addr) = leadingBytes 16 ((p.mask6 + 7) / 8) addr.toNat := by
  rw [addressField, option, makeEcsOption, Nat.min_eq_left h.mask6]
  rfl

theorem length_addressField (ip : IpAddr) : (p.addressField ip).length = (p.prefixLen ip + 7) / 8 := by
  cases ip with
  | v4 addr => rw [h.addressField_v4, length_leadingBytes, prefixLen]
  | v6 addr => rw [h.addressField_v6, length_leadingBytes, prefixLen]

theorem fieldBit_addressField (ip : IpAddr) {i : Nat} (hi : i < 8 * (p.addressField ip).length) :
    fieldBit (p.addressField ip) i = addrBit ip i := by
  rw [h.length_addressField] at hi
  have hmask4 := h.mask4
  have hmask6 := h.mask6
  cases ip with
  | v4 addr =>
    rw [prefixLen] at hi
    rw [h.addressField_v4, fieldBit_leadingBytes _ (by omega) hi, addrBit, BitVec.getMsbD, BitVec.getLsbD,
      decide_eq_true (by omega), Bool.true_and]
  | v6 addr =>
    rw [prefixLen] at hi
    rw [h.addressField_v6, fieldBit_leadingBytes _ (by omega) hi, addrBit, BitVec.getMsbD, BitVec.getLsbD,
      decide_eq_true (by omega), Bool.true_and]

theorem option_eq_of_field {ip ip' : IpAddr} (hfamily : SameFamily ip ip')
    (hfield : p.addressField ip = p.addressField ip') : p.option ip = p.option ip' := by
  cases ip with
  | v4 addr =>
    cases ip' with
    | v4 addr' =>
      rw [h.addressField_v4, h.addressField_v4] at hfield
      rw [option, option, makeEcsOption, makeEcsOption, Nat.min_eq_left h.mask4, hfield]
    | v6 addr' => cases hfamily
  | v6 addr =>
    cases ip' with
    | v4 addr' => cases hfamily
    | v6 addr' =>
      rw [h.addressField_v6, h.addressField_v6] at hfield
      rw [option, option, makeEcsOption, makeEcsOption, Nat.min_eq_left h.mask6, hfield]

/-- An address with a bit set right after the prefix shows it, unless the field ends there. -/
theorem dvd_of_zero {ip : IpAddr} (hbit : addrBit ip (p.prefixLen ip) = true)
    (hzero : ∀ i, p.prefixLen ip ≤ i → i < 8 * (p.addressField ip).length → fieldBit (p.addressField ip) i = false) :
    8 ∣ p.prefixLen ip := by
  by_contra hdvd
  have hin : p.prefixLen ip < 8 * (p.addressField ip).length := by
    rw [h.length_addressField]
    omega
  have hfalse := hzero _ (Nat.le_refl _) hin
  rw [h.fieldBit_addressField ip hin, hbit] at hfalse
  cases hfalse

theorem hidesHostBits_of_dvd (hmask4 : 8 ∣ p.mask4) (hmask6 : 8 ∣ p.mask6) : p.HidesHostBits := by
  have hlen : ∀ ip, 8 * (p.addressField ip).length = p.prefixLen ip := by
    intro ip
    have hdvd : 8 ∣ p.prefixLen ip := by
      cases ip with
      | v4 addr => exact hmask4
      | v6 addr => exact hmask6
    rw [h.length_addressField]
    omega
  refine ⟨?_, h.length_addressField, ?_⟩
  · intro ip ip' hfamily hagree
    have hlength : (p.addressField ip).length = (p.addressField ip').length := by
      rw [h.length_addressField, h.length_addressField, prefixLen_eq hfamily]
    refine h.option_eq_of_field hfamily (eq_of_fieldBit hlength ?_)
    intro i hi
    have hi' : i < 8 * (p.addressField ip').length := by rwa [← hlength]
    rw [h.fieldBit_addressField ip hi, h.fieldBit_addressField ip' hi']
    rw [hlen] at hi
    exact hagree i hi
  · intro ip i hle hlt
    rw [hlen] at hlt
    exact absurd hle (Nat.not_le.mpr hlt)

end ValidMasks

/-- The host bits are hidden exactly by prefixes of whole bytes. -/
theorem hidesHostBits_iff {parseIp : String → Option IpAddr} {args : EcsArgs} {p : EcsPlugin}
    (haccepted : new parseIp args = .ok p) : p.HidesHostBits ↔ 8 ∣ p.mask4 ∧ 8 ∣ p.mask6 := by
  have h := validMasks_of_new haccepted
  constructor
  · intro hhides
    have hmask4 := h.mask4
    have hmask6 := h.mask6
    constructor
    · by_cases hfull : p.mask4 = 32
      · rw [hfull]
        decide
      · have hbit : addrBit (.v4 (BitVec.allOnes 32)) p.mask4 = true := by
          rw [addrBit, BitVec.getMsbD_allOnes, decide_eq_true (by omega)]
        exact h.dvd_of_zero hbit (hhides.zero _)
    · by_cases hfull : p.mask6 = 128
      · rw [hfull]
        decide
      · have hbit : addrBit (.v6 (BitVec.allOnes 128)) p.mask6 = true := by
          rw [addrBit, BitVec.getMsbD_allOnes, decide_eq_true (by omega)]
        exact h.dvd_of_zero hbit (hhides.zero _)
  · rintro ⟨hmask4, hmask6⟩
    exact h.hidesHostBits_of_dvd hmask4 hmask6

theorem hidesHostBits_iff_default :
    HidesHostBits ⟨false, true, none, 24, 48⟩ ↔ 8 ∣ 24 ∧ 8 ∣ 48 :=
  @hidesHostBits_iff (fun _ => none) ⟨none, some true, none, none, none⟩ ⟨false, true, none, 24, 48⟩ rfl

/-- A prefix of 20 bits is accepted, and its option still tells 10.0.16.0 from 10.0.17.0. -/
theorem not_hidesHostBits_twenty :
    new (fun _ => none) ⟨none, some true, none, some 20, none⟩ = .ok ⟨false, true, none, 20, 48⟩ ∧
      ¬HidesHostBits ⟨false, true, none, 20, 48⟩ := by
  refine ⟨rfl, fun hhides => ?_⟩
  have hsame := hhides.same (.v4 0x0A001000) (.v4 0x0A001100) trivial (by decide)
  exact absurd hsame (by decide)

end EcsPlugin

end Lazydns
