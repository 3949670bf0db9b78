import Lazydns.Dns.IpText
import Lazydns.Plugin.Names
import Lazydns.Plugin.Reply

/-!
# Reverse names

The reverse name of an address: its octets in decimal or its nibbles in hexadecimal, the lowest first, under the zone of its family. `parse_ptr` cuts off more at the end of a name than one zone and one dot; a spelling says what it takes a name apart into.
-/

namespace Lazydns

namespace IpAddr

def reverseZone : IpAddr → String
  | .v4 _ => ".in-addr.arpa"
  | .v6 _ => ".ip6.arpa"

def reverseLabels : IpAddr → List (List Char)
  | .v4 a => (IpText.octets a).map (Nat.toDigits 10)
  | .v6 a => (Radix.digits 16 32 a.toNat).map (Nat.toDigits 16)

/-- The reverse name without a dot at its end. -/
def reverseName (ip : IpAddr) : List Char := ['.'].intercalate ip.reverseLabels ++ ip.reverseZone.toList

end IpAddr

/-- The name is the address's reverse name, in any case and with or without a dot at its end. -/
def IsReverseName (ip : IpAddr) (name : String) : Prop :=
  ∃ trailing ≤ 1, name.toList.map Char.toLower = ip.reverseName ++ List.replicate trailing '.'

namespace ReverseLookupPlugin

/-! ### Cutting off the end -/

/-- `s.trim_end_matches('.')` on characters. -/
def trimDots (s : List Char) : List Char := (s.reverse.dropWhile (· = '.')).reverse

theorem trimDots_append {s : List Char} (hs : s.getLast? ≠ some '.') (k : Nat) :
    trimDots (s ++ List.replicate k '.') = s := by
  have hdots : ∀ c ∈ List.replicate k '.', decide (c = '.') = true :=
    fun c hc => decide_eq_true (List.eq_of_mem_replicate hc)
  have hstop : s.reverse.dropWhile (· = '.') = s.reverse := by
    rw [← List.head?_reverse] at hs
    cases hrev : s.reverse with
    | nil => rfl
    | cons c cs =>
      rw [hrev, List.head?_cons] at hs
      rw [List.dropWhile_cons, if_neg]
      rw [decide_eq_true_iff]
      exact fun hc => hs (congrArg some hc)
  rw [trimDots, List.reverse_append, List.reverse_replicate, List.dropWhile_append_of_pos hdots, hstop, List.reverse_reverse]

theorem exists_trimDots (s : List Char) :
    ∃ k, s = trimDots s ++ List.replicate k '.' ∧ (trimDots s).getLast? ≠ some '.' := by
  refine ⟨(s.reverse.takeWhile (· = '.')).length, ?_, ?_⟩
  · have hdots : s.reverse.takeWhile (· = '.') = List.replicate (s.reverse.takeWhile (· = '.')).length '.' := by
      rw [List.eq_replicate_iff]
      exact ⟨rfl, fun c hc => of_decide_eq_true (List.mem_takeWhile_imp (p := fun c => decide (c = '.')) hc)⟩
    have hsplit := congrArg List.reverse (List.takeWhile_append_dropWhile (p := fun c => decide (c = '.')) (l := s.reverse))
    rw [List.reverse_append, List.reverse_reverse] at hsplit
    rw [← List.reverse_replicate, ← hdots]
    exact hsplit.symm
  · rw [trimDots, List.getLast?_reverse]
    intro h
    have hhead := List.head?_dropWhile_not (fun c => decide (c = '.')) s.reverse
    rw [h] at hhead
    exact absurd hhead (by decide)

theorem map_toLower_trimEndDots (name : String) :
    (trimEndDots name).toList.map Char.toLower = trimDots (name.toList.map Char.toLower) := by
  have hdot : (fun c => decide (c = '.')) ∘ Char.toLower = fun c => decide (c = '.') := by
    funext c
    exact decide_eq_decide.mpr (toLower_eq_iff (by decide) (by decide) c)
  rw [trimEndDots, String.toList_ofList, trimDots, ← List.map_reverse, List.dropWhile_map, hdot, ← List.map_reverse]

theorem flatten_replicate_succ (k : Nat) (p : List Char) :
    (List.replicate (k + 1) p).flatten = (List.replicate k p).flatten ++ p := by
  rw [List.replicate_succ', List.flatten_append, List.flatten_singleton]

theorem trimEndMatches_append {p s : List Char} (hs : ¬p <:+ s) {k fuel : Nat} (hfuel : k ≤ fuel) :
    trimEndMatches p fuel (s ++ (List.replicate k p).flatten) = s := by
  induction k generalizing fuel with
  | zero =>
    rw [List.replicate_zero, List.flatten_nil, List.append_nil]
    cases fuel with
    | zero => rfl
    | succ fuel => rw [trimEndMatches, if_neg (fun h => hs (List.isSuffixOf_iff_suffix.mp h))]
  | succ k ih =>
    obtain ⟨fuel, rfl⟩ := Nat.exists_eq_add_of_le' (Nat.lt_of_lt_of_le (Nat.succ_pos k) hfuel)
    rw [flatten_replicate_succ, ← List.append_assoc, trimEndMatches,
      if_pos (List.isSuffixOf_iff_suffix.mpr (List.suffix_append _ _)), List.length_append, Nat.add_sub_cancel,
      List.take_left']
    · exact ih (Nat.le_of_succ_le_succ hfuel)
    · rfl

theorem exists_trimEndMatches {p : List Char} (hp : p ≠ []) {fuel : Nat} {s : List Char} (hfuel : s.length ≤ fuel) :
    ∃ k, s = trimEndMatches p fuel s ++ (List.replicate k p).flatten ∧ ¬p <:+ trimEndMatches p fuel s := by
  induction fuel generalizing s with
  | zero =>
    have hnil : s = [] := List.eq_nil_of_length_eq_zero (Nat.le_zero.mp hfuel)
    subst hnil
    exact ⟨0, rfl, fun h => hp (List.suffix_nil.mp h)⟩
  | succ fuel ih =>
    rw [trimEndMatches]
    by_cases h : p.isSuffixOf s
    · obtain ⟨t, rfl⟩ := List.isSuffixOf_iff_suffix.mp h
      have hpos := List.length_pos_of_ne_nil hp
      rw [List.length_append] at hfuel
      rw [if_pos h, List.length_append, Nat.add_sub_cancel, List.take_left' rfl]
      obtain ⟨k, hk, hnot⟩ := ih (s := t) (by omega)
      refine ⟨k + 1, ?_, hnot⟩
      rw [flatten_replicate_succ, ← List.append_assoc, ← hk]
    · rw [if_neg h]
      refine ⟨0, ?_, fun h' => h (List.isSuffixOf_iff_suffix.mpr h')⟩
      rw [List.replicate_zero, List.flatten_nil, List.append_nil]

/-! ### Spellings -/

theorem not_mem_of_mem_splitOn {cs : List Char} : ∀ label ∈ cs.splitOn '.', '.' ∉ label := by
  induction cs with
  | nil =>
    intro label hlabel
    rw [List.mem_singleton.mp hlabel]
    exact List.not_mem_nil
  | cons c cs ih =>
    intro label hlabel
    rw [List.splitOn_cons_eq_if_modifyHead] at hlabel
    split at hlabel
    · rcases List.mem_cons.mp hlabel with rfl | hlabel
      · exact List.not_mem_nil
      · exact ih label hlabel
    · rename_i hc
      cases hsplit : cs.splitOn '.' with
      | nil => exact absurd hsplit (List.splitOn_ne_nil _ _)
      | cons first rest =>
        rw [hsplit] at hlabel ih
        rcases List.mem_cons.mp hlabel with rfl | hlabel
        · intro hdot
          rcases List.mem_cons.mp hdot with rfl | hdot
          · exact hc rfl
          · exact ih first List.mem_cons_self hdot
        · exact ih label (List.mem_cons_of_mem _ hlabel)

/-- A name in lower case as a body, dots, a zone several times, and dots. -/
structure Spelling (zone : String) (name : String) where
  body : List Char
  dots : Nat
  zones : Nat
  trailing : Nat
  text : name.toList.map Char.toLower =
    body ++ List.replicate dots '.' ++ (List.replicate zones zone.toList).flatten ++ List.replicate trailing '.'
  zones_pos : 0 < zones
  noDot : body.getLast? ≠ some '.'
  noZone : ¬zone.toList <:+ body ++ List.replicate dots '.'

namespace Spelling

variable {zone : String} {name : String}

/-- One zone, no dot before it and at most one behind it. -/
def Regular (sp : Spelling zone name) : Prop := sp.dots = 0 ∧ sp.zones = 1 ∧ sp.trailing ≤ 1

def labels (sp : Spelling zone name) : List (List Char) := sp.body.splitOn '.'

theorem splitOn_reverse (sp : Spelling zone name) :
    (['.'].intercalate sp.labels.reverse).splitOn '.' = sp.labels.reverse := by
  refine List.splitOn_intercalate '.' ?_ ?_
  · exact fun label hlabel => not_mem_of_mem_splitOn label (List.mem_reverse.mp hlabel)
  · exact fun h => List.splitOn_ne_nil _ _ (List.reverse_eq_nil_iff.mp h)

variable (hzone : zone.toList.getLast? = some 'a')

include hzone

theorem trimDots_eq (sp : Spelling zone name) : trimDots (name.toList.map Char.toLower) =
    sp.body ++ List.replicate sp.dots '.' ++ (List.replicate sp.zones zone.toList).flatten := by
  obtain ⟨zones, hzones⟩ := Nat.exists_eq_add_of_le' sp.zones_pos
  rw [sp.text, trimDots_append]
  rw [hzones, flatten_replicate_succ, ← List.append_assoc, List.getLast?_append, hzone, Option.some_or]
  decide

theorem zone_suffix (sp : Spelling zone name) : zone.toList <:+ trimDots (name.toList.map Char.toLower) := by
  obtain ⟨zones, hzones⟩ := Nat.exists_eq_add_of_le' sp.zones_pos
  rw [sp.trimDots_eq hzone, hzones, flatten_replicate_succ, ← List.append_assoc]
  exact List.suffix_append _ _

theorem zone_pos : 0 < zone.toList.length := by
  cases hcs : zone.toList with
  | nil =>
    rw [hcs] at hzone
    cases hzone
  | cons c cs => exact Nat.succ_pos _

theorem trimEndMatches_eq (sp : Spelling zone name) :
    trimEndMatches zone.toList (trimDots (name.toList.map Char.toLower)).length (trimDots (name.toList.map Char.toLower)) =
      sp.body ++ List.replicate sp.dots '.' := by
  rw [sp.trimDots_eq hzone, trimEndMatches_append sp.noZone]
  rw [List.length_append, List.length_flatten, List.map_replicate, List.sum_replicate_nat]
  exact Nat.le_trans (Nat.le_mul_of_pos_right _ (zone_pos hzone)) (Nat.le_add_left _ _)

theorem zoneLabels_eq (sp : Spelling zone name) :
    zoneLabels zone (trimDots (name.toList.map Char.toLower)) = sp.labels := by
  rw [zoneLabels, sp.trimEndMatches_eq hzone, labels]
  exact congrArg (List.splitOn '.') (trimDots_append sp.noDot sp.dots)

/-- There is one way to spell a name. -/
theorem eq (sp sp' : Spelling zone name) :
    sp.body = sp'.body ∧ sp.dots = sp'.dots ∧ sp.zones = sp'.zones ∧ sp.trailing = sp'.trailing := by
  have hdots := (sp.trimEndMatches_eq hzone).symm.trans (sp'.trimEndMatches_eq hzone)
  have hbody : sp.body = sp'.body := by
    have hbody := congrArg trimDots hdots
    rwa [trimDots_append sp.noDot, trimDots_append sp'.noDot] at hbody
  have hzones := (sp.trimDots_eq hzone).symm.trans (sp'.trimDots_eq hzone)
  have htext := sp.text.symm.trans sp'.text
  have hlength := congrArg List.length hdots
  have hlength' := congrArg List.length hzones
  have hlength'' := congrArg List.length htext
  rw [hzones] at hlength''
  rw [hdots] at hlength'
  rw [hbody] at hlength
  simp only [List.length_append, List.length_flatten, List.map_replicate, List.sum_replicate_nat, List.length_replicate,
    Nat.add_left_cancel_iff] at hlength hlength' hlength''
  exact ⟨hbody, hlength, Nat.eq_of_mul_eq_mul_right (zone_pos hzone) hlength', hlength''⟩

theorem regular_iff (sp sp' : Spelling zone name) : sp.Regular ↔ sp'.Regular := by
  obtain ⟨-, hdots, hzones, htrailing⟩ := sp.eq hzone sp'
  rw [Regular, Regular, hdots, hzones, htrailing]

omit hzone in
theorem not_both (sp : Spelling ".in-addr.arpa" name) (sp' : Spelling ".ip6.arpa" name) : False := by
  have hsuffix := List.suffix_of_suffix_length_le (sp'.zone_suffix (by decide)) (sp.zone_suffix (by decide)) (by decide)
  exact absurd hsuffix (by decide)

omit hzone in
theorem exists_of_suffix (hpos : zone.toList ≠ []) (h : zone.toList <:+ trimDots (name.toList.map Char.toLower)) :
    Nonempty (Spelling zone name) := by
  obtain ⟨trailing, htrailing, -⟩ := exists_trimDots (name.toList.map Char.toLower)
  obtain ⟨zones, hzones, hnot⟩ := exists_trimEndMatches hpos (Nat.le_refl (trimDots (name.toList.map Char.toLower)).length)
  obtain ⟨dots, hdots, hlast⟩ := exists_trimDots
    (trimEndMatches zone.toList (trimDots (name.toList.map Char.toLower)).length (trimDots (name.toList.map Char.toLower)))
  refine ⟨⟨_, dots, zones, trailing, ?_, ?_, hlast, ?_⟩⟩
  · rw [← hdots, ← hzones]
    exact htrailing
  · rw [Nat.pos_iff_ne_zero]
    rintro rfl
    rw [List.replicate_zero, List.flatten_nil, List.append_nil] at hzones
    rw [← hzones] at hnot
    exact hnot h
  · rw [← hdots]
    exact hnot

end Spelling

/-! ### Nibbles -/

/-- The body that is read as the digits, which are the highest first. -/
def nibbleBody (digits : List Char) : List Char := ['.'].intercalate (digits.reverse.map fun c => [c])

/-- Hexadecimal digits, or plus signs in the places of high nibbles. -/
def IsHexText (digits : List Char) : Prop :=
  ∀ i c, digits[i]? = some c → (hexDigit c).isSome ∨ c = '+' ∧ i % 2 = 0

theorem isSome_hexByte {hi lo : Char} :
    (hexByte hi lo).isSome ↔ ((hexDigit hi).isSome ∨ hi = '+') ∧ (hexDigit lo).isSome := by
  rw [hexByte]
  by_cases hplus : hi = '+'
  · rw [if_pos hplus]
    exact ⟨fun h => ⟨.inr hplus, h⟩, fun h => h.2⟩
  · rw [if_neg hplus, or_iff_left hplus]
    cases hexDigit hi with
    | none => exact iff_of_false nofun fun h => nomatch h.1
    | some n =>
      cases hexDigit lo with
      | none => exact iff_of_false nofun fun h => nomatch h.2
      | some m => exact iff_of_true rfl ⟨rfl, rfl⟩

theorem isHexText_cons_cons {hi lo : Char} {digits : List Char} :
    IsHexText (hi :: lo :: digits) ↔ (hexByte hi lo).isSome ∧ IsHexText digits := by
  rw [isSome_hexByte]
  constructor
  · intro h
    refine ⟨⟨?_, ?_⟩, ?_⟩
    · rcases h 0 hi rfl with hhex | ⟨hplus, -⟩
      · exact .inl hhex
      · exact .inr hplus
    · rcases h 1 lo rfl with hhex | ⟨-, hodd⟩
      · exact hhex
      · cases hodd
    · intro i c hc
      rcases h (i + 2) c hc with hhex | ⟨hplus, heven⟩
      · exact .inl hhex
      · exact .inr ⟨hplus, by omega⟩
  · rintro ⟨⟨hhi, hlo⟩, h⟩ i c hc
    match i, hc with
    | 0, hc =>
      cases hc
      rcases hhi with hhex | hplus
      · exact .inl hhex
      · exact .inr ⟨hplus, rfl⟩
    | 1, hc =>
      cases hc
      exact .inl hlo
    | i + 2, hc =>
      rcases h i c hc with hhex | ⟨hplus, heven⟩
      · exact .inl hhex
      · exact .inr ⟨hplus, by omega⟩

theorem isHexText_singleton {c : Char} : IsHexText [c] ↔ (hexByte c '0').isSome := by
  rw [isSome_hexByte, and_iff_left (by decide)]
  constructor
  · intro h
    rcases h 0 c rfl with hhex | ⟨hplus, -⟩
    · exact .inl hhex
    · exact .inr hplus
  · rintro h i c' hc'
    match i, hc' with
    | 0, hc' =>
      cases hc'
      rcases h with hhex | hplus
      · exact .inl hhex
      · exact .inr ⟨hplus, rfl⟩

theorem isSome_hexBytes_iff (digits : List Char) : (hexBytes digits).isSome ↔ IsHexText digits := by
  induction digits using hexBytes.induct with
  | case1 hi lo rest ih =>
    rw [isHexText_cons_cons, ← ih, hexBytes]
    cases hexByte hi lo with
    | none => exact iff_of_false nofun fun h => nomatch h.1
    | some byte =>
      cases hexBytes rest with
      | none => exact iff_of_false nofun fun h => nomatch h.2
      | some bytes => exact iff_of_true rfl ⟨rfl, rfl⟩
  | case2 c =>
    rw [isHexText_singleton, hexBytes]
    cases hexByte c '0' with
    | none => exact iff_of_false nofun nofun
    | some byte => exact iff_of_true rfl rfl
  | case3 => exact iff_of_true rfl nofun

theorem length_hexBytes {digits : List Char} {bytes : List Nat} (h : hexBytes digits = some bytes) :
    bytes.length = (digits.length + 1) / 2 := by
  induction digits using hexBytes.induct generalizing bytes with
  | case1 hi lo rest ih =>
    obtain ⟨byte, -, h⟩ := Option.bind_eq_some_iff.mp h
    obtain ⟨bytes', hbytes', h⟩ := Option.bind_eq_some_iff.mp h
    cases h
    rw [List.length_cons, ih hbytes', List.length_cons, List.length_cons]
    omega
  | case2 c =>
    obtain ⟨byte, -, h⟩ := Option.bind_eq_some_iff.mp h
    cases h
    rw [List.length_singleton, List.length_singleton]
  | case3 =>
    cases h
    rfl

theorem hexDigit_eq_some {c : Char} {n : Nat} : hexDigit c = some n ↔ n < 16 ∧ c = n.digitChar := by
  have hchar : ∀ n < 16, hexDigit n.digitChar = some n := by decide
  have hdigit : ∀ n < 10, Char.ofNat (48 + n) = n.digitChar := by decide
  have hletter : ∀ n < 6, Char.ofNat (97 + n) = (10 + n).digitChar := by decide
  constructor
  · intro h
    rw [hexDigit] at h
    by_cases hc : '0' ≤ c ∧ c ≤ '9'
    · rw [if_pos hc] at h
      cases h
      have hlow : 48 ≤ c.toNat := hc.1
      have hhigh : c.toNat ≤ 57 := hc.2
      refine ⟨by omega, ?_⟩
      rw [← hdigit _ (by omega), Nat.add_sub_cancel' hlow, Char.ofNat_toNat]
    · rw [if_neg hc] at h
      obtain ⟨hc, heq⟩ := Option.ite_none_right_eq_some.mp h
      cases heq
      have hlow : 97 ≤ c.toNat := hc.1
      have hhigh : c.toNat ≤ 102 := hc.2
      refine ⟨by omega, ?_⟩
      rw [show c.toNat - 87 = 10 + (c.toNat - 97) by omega, ← hletter _ (by omega), Nat.add_sub_cancel' hlow,
        Char.ofNat_toNat]
  · rintro ⟨hn, rfl⟩
    exact hchar n hn

/-- Without plus signs, an even number of digits is the number they are in hexadecimal. -/
theorem foldl_hexBytes {values : List Nat} (hvalues : ∀ n ∈ values, n < 16) (heven : values.length % 2 = 0) :
    ∃ bytes, hexBytes (values.map Nat.digitChar) = some bytes ∧
      ∀ n, bytes.foldl (256 * · + ·) n = Radix.value 16 n values := by
  induction hk : values.length / 2 generalizing values with
  | zero =>
    have hnil : values = [] := List.eq_nil_of_length_eq_zero (by omega)
    subst hnil
    exact ⟨[], rfl, fun _ => rfl⟩
  | succ k ih =>
    match values with
    | [] => cases hk
    | [_] => cases heven
    | hi :: lo :: rest =>
      rw [List.length_cons, List.length_cons] at hk heven
      obtain ⟨hhi, hvalues⟩ := List.forall_mem_cons.mp hvalues
      obtain ⟨hlo, hrest⟩ := List.forall_mem_cons.mp hvalues
      obtain ⟨bytes, hbytes, hfold⟩ := ih hrest (by omega) (by omega)
      have hplus : hi.digitChar ≠ '+' := by
        have hplus : ∀ n < 16, Nat.digitChar n ≠ '+' := by decide
        exact hplus hi hhi
      have hbyte : hexByte hi.digitChar lo.digitChar = some (hi * 16 + lo) := by
        rw [hexByte, if_neg hplus, hexDigit_eq_some.mpr ⟨hhi, rfl⟩, hexDigit_eq_some.mpr ⟨hlo, rfl⟩]
        rfl
      refine ⟨(hi * 16 + lo) :: bytes, ?_, ?_⟩
      · rw [List.map_cons, List.map_cons, hexBytes, hbyte, hbytes]
        rfl
      · intro n
        rw [List.foldl_cons, hfold, Radix.value, Radix.value, List.foldl_cons, List.foldl_cons]
        congr 1
        omega

/-! ### Reading a name -/

theorem parsePtr_v4 {env : Env} {name : String} (sp : Spelling ".in-addr.arpa" name) :
    parsePtr env name =
      if sp.labels.length = 4 then env.parseIp (String.ofList (['.'].intercalate sp.labels.reverse)) else none := by
  have hzone : ".in-addr.arpa".toList.getLast? = some 'a' := by decide
  rw [parsePtr, map_toLower_trimEndDots]
  dsimp only
  rw [if_pos (List.isSuffixOf_iff_suffix.mpr (sp.zone_suffix hzone)), sp.zoneLabels_eq hzone]

/-- No dot and no character of more than one byte is read as a digit. -/
theorem mem_of_isHexText {digits : List Char} (h : IsHexText digits) {c : Char} (hc : c ∈ digits) :
    c ≠ '.' ∧ (String.utf8EncodeChar c).length = 1 := by
  obtain ⟨i, hi⟩ := List.getElem?_of_mem hc
  have hchar : ∀ n < 16, Nat.digitChar n ≠ '.' ∧ (String.utf8EncodeChar (Nat.digitChar n)).length = 1 := by decide
  rcases h i c hi with hhex | ⟨rfl, -⟩
  · obtain ⟨n, hn⟩ := Option.isSome_iff_exists.mp hhex
    obtain ⟨hlt, rfl⟩ := hexDigit_eq_some.mp hn
    exact hchar n hlt
  · decide

theorem isHexText_map {values : List Nat} (h : ∀ n ∈ values, n < 16) : IsHexText (values.map Nat.digitChar) := by
  intro i c hc
  obtain ⟨n, hn, rfl⟩ := List.mem_map.mp (List.mem_of_getElem? hc)
  refine .inl ?_
  rw [hexDigit_eq_some.mpr ⟨h n hn, rfl⟩]
  rfl

theorem plus_notMem_map {values : List Nat} (h : ∀ n ∈ values, n < 16) : '+' ∉ values.map Nat.digitChar := by
  have hplus : ∀ n < 16, Nat.digitChar n ≠ '+' := by decide
  intro hmem
  obtain ⟨n, hn, heq⟩ := List.mem_map.mp hmem
  exact hplus n (h n hn) heq

theorem IsHexText.exists_values {digits : List Char} (h : IsHexText digits) (hplus : '+' ∉ digits) :
    ∃ values : List Nat, (∀ n ∈ values, n < 16) ∧ digits = values.map Nat.digitChar := by
  have hdigits : ∀ c ∈ digits, ∃ n < 16, n.digitChar = c := by
    intro c hc
    obtain ⟨i, hi⟩ := List.getElem?_of_mem hc
    rcases h i c hi with hsome | ⟨rfl, -⟩
    · obtain ⟨n, hn⟩ := Option.isSome_iff_exists.mp hsome
      obtain ⟨hlt, rfl⟩ := hexDigit_eq_some.mp hn
      exact ⟨n, hlt, rfl⟩
    · exact absurd hc hplus
  clear h hplus
  induction digits with
  | nil => exact ⟨[], nofun, rfl⟩
  | cons c digits ih =>
    obtain ⟨⟨n, hn, rfl⟩, hrest⟩ := List.forall_mem_cons.mp hdigits
    obtain ⟨values, hvalues, rfl⟩ := ih hrest
    exact ⟨n :: values, List.forall_mem_cons.mpr ⟨hn, hvalues⟩, rfl⟩

theorem splitOn_nibbleBody {digits : List Char} (hne : digits ≠ []) (hdots : ∀ c ∈ digits, c ≠ '.') :
    (nibbleBody digits).splitOn '.' = digits.reverse.map fun c => [c] := by
  refine List.splitOn_intercalate '.' ?_ ?_
  · intro l hl hdot
    obtain ⟨c, hc, rfl⟩ := List.mem_map.mp hl
    exact hdots c (List.mem_reverse.mp hc) (List.mem_singleton.mp hdot).symm
  · intro h
    exact hne (List.reverse_eq_nil_iff.mp (List.map_eq_nil_iff.mp h))

theorem flatten_map_singleton (cs : List Char) : (cs.map fun c => [c]).flatten = cs := by
  induction cs with
  | nil => rfl
  | cons c cs ih => rw [List.map_cons, List.flatten_cons, ih, List.singleton_append]

theorem nibbleBody_inj {digits digits' : List Char} (h : nibbleBody digits = nibbleBody digits') (hne : digits ≠ [])
    (hne' : digits' ≠ []) (hhex : IsHexText digits) (hhex' : IsHexText digits') : digits = digits' := by
  have hsplit := congrArg (List.splitOn '.') h
  rw [splitOn_nibbleBody hne fun c hc => (mem_of_isHexText hhex hc).1,
    splitOn_nibbleBody hne' fun c hc => (mem_of_isHexText hhex' hc).1] at hsplit
  have hflatten := congrArg List.flatten hsplit
  rw [flatten_map_singleton, flatten_map_singleton] at hflatten
  exact List.reverse_inj.mp hflatten

theorem exists_singleton {label : List Char} (h : (label.flatMap String.utf8EncodeChar).length = 1) :
    ∃ c, label = [c] := by
  have hpos : ∀ c : Char, 0 < (String.utf8EncodeChar c).length := by
    intro c
    rw [String.length_utf8EncodeChar]
    exact Char.utf8Size_pos c
  match label with
  | [] => cases h
  | [c] => exact ⟨c, rfl⟩
  | c :: c' :: cs =>
    rw [List.flatMap_cons, List.flatMap_cons, List.length_append, List.length_append] at h
    have hc := hpos c
    have hc' := hpos c'
    omega

theorem exists_map_singleton {labels : List (List Char)}
    (h : ∀ label ∈ labels, (label.flatMap String.utf8EncodeChar).length = 1) :
    ∃ cs : List Char, labels = cs.map fun c => [c] := by
  induction labels with
  | nil => exact ⟨[], rfl⟩
  | cons label labels ih =>
    obtain ⟨hlabel, hlabels⟩ := List.forall_mem_cons.mp h
    obtain ⟨c, rfl⟩ := exists_singleton hlabel
    obtain ⟨cs, rfl⟩ := ih hlabels
    exact ⟨c :: cs, rfl⟩

theorem parsePtr_v6 {env : Env} {name : String} {ip : IpAddr} (sp : Spelling ".ip6.arpa" name) :
    parsePtr env name = some ip ↔ ∃ digits bytes, sp.body = nibbleBody digits ∧ hexBytes digits = some bytes ∧
      bytes.length = 16 ∧ ip = .v6 (BitVec.ofNat 128 (bytes.foldl (256 * · + ·) 0)) := by
  have hzone : ".ip6.arpa".toList.getLast? = some 'a' := by decide
  have hnot : ¬".in-addr.arpa".toList <:+ trimDots (name.toList.map Char.toLower) := by
    intro h
    obtain ⟨sp'⟩ := Spelling.exists_of_suffix (by decide) h
    exact sp'.not_both sp
  rw [parsePtr, map_toLower_trimEndDots]
  dsimp only
  rw [if_neg (fun h => hnot (List.isSuffixOf_iff_suffix.mp h)),
    if_pos (List.isSuffixOf_iff_suffix.mpr (sp.zone_suffix hzone)), sp.zoneLabels_eq hzone]
  constructor
  · intro h
    obtain ⟨hlabels, h⟩ := Option.ite_none_right_eq_some.mp h
    have hone : ∀ label ∈ sp.labels, (label.flatMap String.utf8EncodeChar).length = 1 :=
      fun label hlabel => of_decide_eq_true (List.all_eq_true.mp hlabels label hlabel)
    obtain ⟨cs, hcs⟩ := exists_map_singleton hone
    rw [hcs, ← List.map_reverse, flatten_map_singleton] at h
    cases hbytes : hexBytes cs.reverse with
    | none =>
      rw [hbytes] at h
      cases h
    | some bytes =>
      rw [hbytes] at h
      obtain ⟨hlength, heq⟩ := Option.ite_none_right_eq_some.mp h
      refine ⟨cs.reverse, bytes, ?_, hbytes, hlength, (Option.some.inj heq).symm⟩
      rw [nibbleBody, List.reverse_reverse, ← hcs, Spelling.labels, List.intercalate_splitOn]
  · rintro ⟨digits, bytes, hbody, hbytes, hlength, rfl⟩
    have hhex : IsHexText digits := (isSome_hexBytes_iff digits).mp (Option.isSome_iff_exists.mpr ⟨bytes, hbytes⟩)
    have hne : digits ≠ [] := by
      rintro rfl
      cases hbytes
      cases hlength
    have hlabels : sp.labels = digits.reverse.map fun c => [c] := by
      rw [Spelling.labels, hbody, splitOn_nibbleBody hne fun c hc => (mem_of_isHexText hhex hc).1]
    rw [hlabels, if_pos, ← List.map_reverse, List.reverse_reverse, flatten_map_singleton, hbytes]
    · exact if_pos hlength
    · rw [List.all_eq_true]
      intro label hlabel
      obtain ⟨c, hc, rfl⟩ := List.mem_map.mp hlabel
      rw [List.flatMap_singleton]
      exact decide_eq_true (mem_of_isHexText hhex (List.mem_reverse.mp hc)).2

/-- Nothing is read from a name outside both zones. -/
theorem exists_spelling {env : Env} {name : String} {ip : IpAddr} (h : parsePtr env name = some ip) :
    Nonempty (Spelling ".in-addr.arpa" name) ∨ Nonempty (Spelling ".ip6.arpa" name) := by
  rw [parsePtr, map_toLower_trimEndDots] at h
  dsimp only at h
  split at h
  · rename_i hsuffix
    exact .inl (Spelling.exists_of_suffix (by decide) (List.isSuffixOf_iff_suffix.mp hsuffix))
  · split at h
    · rename_i hsuffix
      exact .inr (Spelling.exists_of_suffix (by decide) (List.isSuffixOf_iff_suffix.mp hsuffix))
    · cases h

end ReverseLookupPlugin

end Lazydns
