import Lazydns.Plugin.ReverseName
import Lazydns.Server.Service

/-!
# Reading reverse names

`parse_ptr` reads the reverse name of each address, in any case, as that address. It also reads names that are no reverse names: those with more zones or dots than one at the end, those with 31 nibbles or with a plus sign for a nibble, and names under `in-addr.arpa` whose labels are an IPv6 address that ends like an IPv4 address.
-/

namespace Lazydns

open ReverseLookupPlugin

/-! ### Labels -/

/-- The labels are not empty, and all their characters are hexadecimal digits. -/
def HexLabels (labels : List (List Char)) : Prop := ∀ label ∈ labels, label ≠ [] ∧ ∀ c ∈ label, (hexDigit c).isSome

theorem hexLabels_reverseLabels (ip : IpAddr) : HexLabels ip.reverseLabels := by
  have hchar : ∀ n < 16, (hexDigit n.digitChar).isSome := by decide
  intro label hlabel
  cases ip with
  | v4 a =>
    obtain ⟨octet, -, rfl⟩ := List.mem_map.mp hlabel
    refine ⟨Nat.toDigits_ne_nil, ?_⟩
    intro c hc
    obtain ⟨n, hn⟩ := Option.isSome_iff_exists.mp (IpText.isSome_toDigit_of_mem hc)
    obtain ⟨hlt, rfl⟩ := IpText.toDigit_ten_iff.mp hn
    exact hchar n (by omega)
  | v6 a =>
    obtain ⟨n, hn, rfl⟩ := List.mem_map.mp hlabel
    have hlt := Radix.lt_of_mem_digits (by decide) hn
    refine ⟨Nat.toDigits_ne_nil, ?_⟩
    intro c hc
    rw [Nat.toDigits_of_lt_base hlt] at hc
    rw [List.mem_singleton.mp hc]
    exact hchar n hlt

theorem reverseLabels_ne_nil (ip : IpAddr) : ip.reverseLabels ≠ [] := by
  have hlength : 0 < ip.reverseLabels.length := by
    cases ip with
    | v4 a =>
      rw [IpAddr.reverseLabels, IpText.octets, List.length_map, Radix.length_digits]
      decide
    | v6 a =>
      rw [IpAddr.reverseLabels, List.length_map, Radix.length_digits]
      decide
  exact List.ne_nil_of_length_pos hlength

theorem HexLabels.splitOn_intercalate {labels : List (List Char)} (h : HexLabels labels) (hne : labels ≠ []) :
    (['.'].intercalate labels).splitOn '.' = labels := by
  refine List.splitOn_intercalate '.' ?_ hne
  intro label hlabel hdot
  exact absurd ((h label hlabel).2 '.' hdot) (by decide)

/-- A name made of such labels, the zone and perhaps a dot is spelt in this way. -/
theorem HexLabels.exists_spelling {labels : List (List Char)} (h : HexLabels labels) (hne : labels ≠ []) {zone : String}
    {rest : List Char} (hzone : zone.toList = '.' :: rest) (harpa : "arpa".toList ∈ rest.splitOn '.') {name : String}
    {trailing : Nat} (htrailing : trailing ≤ 1)
    (htext : name.toList.map Char.toLower = ['.'].intercalate labels ++ zone.toList ++ List.replicate trailing '.') :
    ∃ sp : Spelling zone name, sp.labels = labels ∧ sp.Regular := by
  have hsplit := h.splitOn_intercalate hne
  have hmem : ∀ front back, ['.'].intercalate labels = front ++ '.' :: back → ∀ label ∈ back.splitOn '.', label ∈ labels := by
    intro front back heq label hlabel
    rw [← hsplit, heq, List.splitOn_append_cons_self]
    exact List.mem_append_right _ hlabel
  refine ⟨⟨['.'].intercalate labels, 0, 1, trailing, ?_, Nat.zero_lt_one, ?_, ?_⟩, hsplit, rfl, rfl, htrailing⟩
  · rw [htext, List.replicate_zero, List.append_nil, List.replicate_one, List.flatten_singleton]
  · intro hlast
    obtain ⟨front, hfront⟩ := List.getLast?_eq_some_iff.mp hlast
    exact (h [] (hmem front [] hfront [] List.mem_cons_self)).1 rfl
  · rintro ⟨front, hfront⟩
    rw [List.replicate_zero, List.append_nil, hzone] at hfront
    exact absurd ((h _ (hmem front rest hfront.symm _ harpa)).2 'r' (by decide)) (by decide)

theorem IsReverseName.exists_spelling {ip : IpAddr} {name : String} (h : IsReverseName ip name) :
    ∃ sp : Spelling ip.reverseZone name, sp.labels = ip.reverseLabels ∧ sp.Regular := by
  obtain ⟨trailing, htrailing, htext⟩ := h
  have hzone : ∃ rest, ip.reverseZone.toList = '.' :: rest ∧ "arpa".toList ∈ rest.splitOn '.' := by
    cases ip with
    | v4 a => exact ⟨"in-addr.arpa".toList, by rw [IpAddr.reverseZone]; decide, by decide⟩
    | v6 a => exact ⟨"ip6.arpa".toList, by rw [IpAddr.reverseZone]; decide, by decide⟩
  obtain ⟨rest, hrest, harpa⟩ := hzone
  exact (hexLabels_reverseLabels ip).exists_spelling (reverseLabels_ne_nil ip) hrest harpa htrailing htext

theorem IsReverseName.of_spelling {ip : IpAddr} {name : String} (sp : Spelling ip.reverseZone name)
    (hlabels : sp.labels = ip.reverseLabels) (hregular : sp.Regular) : IsReverseName ip name := by
  obtain ⟨hdots, hzones, htrailing⟩ := hregular
  refine ⟨sp.trailing, htrailing, ?_⟩
  rw [sp.text, hdots, hzones, List.replicate_zero, List.append_nil, List.replicate_one, List.flatten_singleton,
    IpAddr.reverseName, ← hlabels, Spelling.labels, List.intercalate_splitOn]

/-! ### Addresses that are read -/

theorem HexLabels.reverse {labels : List (List Char)} (h : HexLabels labels) : HexLabels labels.reverse :=
  fun label hlabel => h label (List.mem_reverse.mp hlabel)

theorem parsePtr_eq_v4 {env : Env} (hparse : env.parseIp = IpText.parse) {name : String}
    (sp : Spelling ".in-addr.arpa" name) (a : BitVec 32) :
    parsePtr env name = some (.v4 a) ↔ sp.labels = (IpAddr.v4 a).reverseLabels := by
  have hlabels := (hexLabels_reverseLabels (.v4 a)).reverse
  have hne : (IpAddr.v4 a).reverseLabels.reverse ≠ [] := fun h => reverseLabels_ne_nil _ (List.reverse_eq_nil_iff.mp h)
  have hdotted : IpText.dotted a = ['.'].intercalate (IpAddr.v4 a).reverseLabels.reverse := by
    rw [IpText.dotted, IpAddr.reverseLabels, List.map_reverse]
  have hlength : (IpAddr.v4 a).reverseLabels.length = 4 := by
    rw [IpAddr.reverseLabels, IpText.octets, List.length_map, Radix.length_digits]
  rw [parsePtr_v4 sp, Option.ite_none_right_eq_some, hparse, IpText.parse_eq_v4_iff, String.toList_ofList, hdotted]
  constructor
  · rintro ⟨-, htext⟩
    have hsplit := congrArg (List.splitOn '.') htext
    rw [sp.splitOn_reverse, hlabels.splitOn_intercalate hne] at hsplit
    exact List.reverse_inj.mp hsplit
  · intro h
    rw [h]
    exact ⟨hlength, rfl⟩

/-- The nibbles of an IPv6 address, the highest first. -/
def nibblesOf (a : BitVec 128) : List Nat := (Radix.digits 16 32 a.toNat).reverse

theorem lt_of_mem_nibblesOf {a : BitVec 128} : ∀ n ∈ nibblesOf a, n < 16 :=
  fun _ hn => Radix.lt_of_mem_digits (by decide) (List.mem_reverse.mp hn)

theorem length_nibblesOf (a : BitVec 128) : (nibblesOf a).length = 32 := by
  rw [nibblesOf, List.length_reverse, Radix.length_digits]

theorem body_of_reverseLabels {name : String} (sp : Spelling ".ip6.arpa" name) {a : BitVec 128}
    (h : sp.labels = (IpAddr.v6 a).reverseLabels) : sp.body = nibbleBody ((nibblesOf a).map Nat.digitChar) := by
  have hmap : (IpAddr.v6 a).reverseLabels = ((nibblesOf a).map Nat.digitChar).reverse.map fun c => [c] := by
    rw [IpAddr.reverseLabels, nibblesOf, ← List.map_reverse, List.reverse_reverse, List.map_map]
    refine List.map_congr_left ?_
    intro n hn
    exact Nat.toDigits_of_lt_base (Radix.lt_of_mem_digits (by decide) hn)
  rw [nibbleBody, ← hmap, ← h, Spelling.labels, List.intercalate_splitOn]

theorem parsePtr_of_v6 {env : Env} {name : String} (sp : Spelling ".ip6.arpa" name) {a : BitVec 128}
    (h : sp.labels = (IpAddr.v6 a).reverseLabels) : parsePtr env name = some (.v6 a) := by
  have hbound : a.toNat < 16 ^ 32 := a.isLt
  obtain ⟨bytes, hbytes, hfold⟩ := foldl_hexBytes lt_of_mem_nibblesOf (by rw [length_nibblesOf a])
  refine (parsePtr_v6 sp).mpr ⟨_, bytes, body_of_reverseLabels sp h, hbytes, ?_, ?_⟩
  · rw [length_hexBytes hbytes, List.length_map, length_nibblesOf]
  · rw [hfold, nibblesOf, Radix.value_reverse_digits hbound, BitVec.ofNat_toNat, BitVec.setWidth_eq]

theorem reverseLabels_of_v6 {env : Env} {name : String} {ip : IpAddr} (sp : Spelling ".ip6.arpa" name)
    {digits : List Char} (hbody : sp.body = nibbleBody digits) (hhex : IsHexText digits) (hlength : digits.length = 32)
    (hplus : '+' ∉ digits) (h : parsePtr env name = some ip) : ∃ a, ip = .v6 a ∧ sp.labels = (IpAddr.v6 a).reverseLabels := by
  obtain ⟨values, hvalues, rfl⟩ := hhex.exists_values hplus
  rw [List.length_map] at hlength
  have hne : values.map Nat.digitChar ≠ [] := by
    intro hnil
    rw [List.map_eq_nil_iff.mp hnil] at hlength
    cases hlength
  obtain ⟨digits, bytes, hbody', hbytes, hlength16, rfl⟩ := (parsePtr_v6 sp).mp h
  obtain ⟨bytes', hbytes', hfold⟩ := foldl_hexBytes hvalues (by rw [hlength])
  have hne' : digits ≠ [] := by
    rintro rfl
    cases hbytes
    cases hlength16
  have heq : digits = values.map Nat.digitChar := by
    refine nibbleBody_inj (hbody'.symm.trans hbody) hne' hne ((isSome_hexBytes_iff digits).mp ?_) hhex
    rw [hbytes]
    rfl
  rw [heq, hbytes'] at hbytes
  cases hbytes
  have hvalue : Radix.digits 16 32 (Radix.value 16 0 values) = values.reverse := by
    rw [← hlength, Radix.digits_value hvalues]
  have hlt : Radix.value 16 0 values < 2 ^ 128 := by
    have hlt := Radix.value_lt hvalues
    rw [hlength] at hlt
    exact hlt
  refine ⟨_, rfl, ?_⟩
  rw [Spelling.labels, hbody, splitOn_nibbleBody hne (fun c hc => (mem_of_isHexText hhex hc).1), IpAddr.reverseLabels,
    BitVec.toNat_ofNat, hfold, Nat.mod_eq_of_lt hlt, hvalue, ← List.map_reverse, List.map_map]
  refine List.map_congr_left ?_
  intro n hn
  exact (Nat.toDigits_of_lt_base (hvalues n (List.mem_reverse.mp hn))).symm

/-! ### Reading exactly -/

/-- The name is read as an address exactly if it is the address's reverse name. -/
def ReadsExactly (env : Env) (name : String) : Prop :=
  ∀ ip, parsePtr env name = some ip ↔ IsReverseName ip name

/-- The names that are read although they are no reverse names, or not those of the addresses they are read as. -/
inductive LooseName (name : String) : Prop
  /-- More zones at the end than one, dots before them, or more dots than one behind them. -/
  | octets (sp : Spelling ".in-addr.arpa" name) (a : BitVec 32) (hlabels : sp.labels = (IpAddr.v4 a).reverseLabels)
      (hend : ¬sp.Regular)
  /-- Four labels, which from the last to the first are the text of an IPv6 address. -/
  | groups (sp : Spelling ".in-addr.arpa" name) (a : BitVec 128) (hlength : sp.labels.length = 4)
      (htext : IpText.parse (String.ofList (['.'].intercalate sp.labels.reverse)) = some (.v6 a))
  /-- 31 or 32 nibbles of one character, but the end irregular, 31 of them, or a plus sign among them. -/
  | nibbles (sp : Spelling ".ip6.arpa" name) (digits : List Char) (hbody : sp.body = nibbleBody digits)
      (hhex : IsHexText digits) (hlength : digits.length = 31 ∨ digits.length = 32)
      (hloose : ¬sp.Regular ∨ digits.length = 31 ∨ '+' ∈ digits)

section

variable {env : Env} (hparse : env.parseIp = IpText.parse) {name : String}

include hparse

/-- The reverse name of each address is read as the address. -/
theorem parsePtr_of_isReverseName {ip : IpAddr} (h : IsReverseName ip name) : parsePtr env name = some ip := by
  obtain ⟨sp, hlabels, -⟩ := h.exists_spelling
  cases ip with
  | v4 a => exact (parsePtr_eq_v4 hparse sp a).mpr hlabels
  | v6 a => exact parsePtr_of_v6 sp hlabels

/-- What is read from other names. -/
theorem isReverseName_or_looseName {ip : IpAddr} (h : parsePtr env name = some ip) :
    IsReverseName ip name ∨ LooseName name := by
  rcases exists_spelling h with ⟨⟨sp⟩⟩ | ⟨⟨sp⟩⟩
  · cases ip with
    | v4 a =>
      have hlabels := (parsePtr_eq_v4 hparse sp a).mp h
      by_cases hend : sp.Regular
      · exact .inl (.of_spelling sp hlabels hend)
      · exact .inr (.octets sp a hlabels hend)
    | v6 a =>
      rw [parsePtr_v4 sp, hparse] at h
      obtain ⟨hlength, htext⟩ := Option.ite_none_right_eq_some.mp h
      exact .inr (.groups sp a hlength htext)
  · obtain ⟨digits, bytes, hbody, hbytes, hlength, -⟩ := (parsePtr_v6 sp).mp h
    have hhex : IsHexText digits := by
      rw [← isSome_hexBytes_iff, hbytes]
      rfl
    rw [length_hexBytes hbytes] at hlength
    by_cases hloose : ¬sp.Regular ∨ digits.length = 31 ∨ '+' ∈ digits
    · exact .inr (.nibbles sp digits hbody hhex (by omega) hloose)
    · rw [not_or, not_or, not_not] at hloose
      obtain ⟨hend, hnot, hplus⟩ := hloose
      obtain ⟨a, rfl, hlabels⟩ := reverseLabels_of_v6 sp hbody hhex (by omega) hplus h
      exact .inl (.of_spelling sp hlabels hend)

theorem LooseName.exists_misread (h : LooseName name) : ∃ ip, parsePtr env name = some ip ∧ ¬IsReverseName ip name := by
  have hzone4 : ".in-addr.arpa".toList.getLast? = some 'a' := by decide
  have hzone6 : ".ip6.arpa".toList.getLast? = some 'a' := by decide
  cases h with
  | octets sp a hlabels hend =>
    refine ⟨.v4 a, (parsePtr_eq_v4 hparse sp a).mpr hlabels, ?_⟩
    intro hreverse
    obtain ⟨sp', -, hregular⟩ := hreverse.exists_spelling
    exact hend (sp.regular_iff hzone4 sp' |>.mpr hregular)
  | groups sp a hlength htext =>
    refine ⟨.v6 a, ?_, ?_⟩
    · rw [parsePtr_v4 sp, if_pos hlength, hparse, htext]
    · intro hreverse
      obtain ⟨sp', -, -⟩ := hreverse.exists_spelling
      exact sp.not_both sp'
  | nibbles sp digits hbody hhex hlength hloose =>
    obtain ⟨bytes, hbytes⟩ := Option.isSome_iff_exists.mp ((isSome_hexBytes_iff digits).mpr hhex)
    have hbytes16 : bytes.length = 16 := by
      rw [length_hexBytes hbytes]
      omega
    have hnot : ∀ a, ¬IsReverseName (.v6 a) name := by
      intro a hreverse
      obtain ⟨sp', hlabels, hregular⟩ := hreverse.exists_spelling
      have hbodies := hbody.symm.trans ((sp.eq hzone6 sp').1.trans (body_of_reverseLabels sp' hlabels))
      have hne : digits ≠ [] := List.ne_nil_of_length_pos (by omega)
      have hne' : (nibblesOf a).map Nat.digitChar ≠ [] := by
        refine List.ne_nil_of_length_pos ?_
        rw [List.length_map, length_nibblesOf]
        decide
      have heq := nibbleBody_inj hbodies hne hne' hhex (isHexText_map lt_of_mem_nibblesOf)
      rcases hloose with hend | hlength31 | hplus
      · exact hend ((sp.regular_iff hzone6 sp').mpr hregular)
      · rw [heq, List.length_map, length_nibblesOf] at hlength31
        cases hlength31
      · rw [heq] at hplus
        exact plus_notMem_map lt_of_mem_nibblesOf hplus
    exact ⟨_, (parsePtr_v6 sp).mpr ⟨digits, bytes, hbody, hbytes, hbytes16, rfl⟩, hnot _⟩

/-- Names are read exactly, apart from the loose ones. -/
theorem readsExactly_iff : ReadsExactly env name ↔ ¬LooseName name := by
  constructor
  · intro h hloose
    obtain ⟨ip, hread, hnot⟩ := hloose.exists_misread hparse
    exact hnot ((h ip).mp hread)
  · intro h ip
    exact ⟨fun hread => (isReverseName_or_looseName hparse hread).resolve_right h, parsePtr_of_isReverseName hparse⟩

end

theorem readsExactly_iff_localhost :
    let env := { Env.answering (.error (.other "")) with parseIp := IpText.parse }
    ReadsExactly env "1.0.0.127.in-addr.arpa." ∧ parsePtr env "1.0.0.127.in-addr.arpa." = some (.v4 0x7F000001) := by
  intro env
  have hread : parsePtr env "1.0.0.127.in-addr.arpa." = some (.v4 0x7F000001) := by decide +kernel
  have hreverse : IsReverseName (.v4 0x7F000001) "1.0.0.127.in-addr.arpa." := ⟨1, Nat.le_refl 1, by decide +kernel⟩
  have hstrict : ¬LooseName "1.0.0.127.in-addr.arpa." := by
    intro hloose
    obtain ⟨ip, hip, hnot⟩ := @LooseName.exists_misread env rfl _ hloose
    rw [hread] at hip
    cases hip
    exact hnot hreverse
  exact ⟨(@readsExactly_iff env rfl _).mpr hstrict, hread⟩

/-- A plus sign in the place of a high nibble is read as a zero. -/
theorem not_readsExactly_plus :
    ¬ReadsExactly { Env.answering (.error (.other "")) with parseIp := IpText.parse }
      "1.0.0.0.0.0.0.0.0.0.0.0.0.0.0.0.0.0.0.0.0.0.0.0.0.0.0.0.0.0.0.+.ip6.arpa" := by
  intro h
  obtain ⟨trailing, hle, htext⟩ := (h (.v6 1)).mp (by decide +kernel)
  rcases Nat.le_one_iff_eq_zero_or_eq_one.mp hle with rfl | rfl
  · exact absurd htext (by decide +kernel)
  · exact absurd htext (by decide +kernel)

end Lazydns
