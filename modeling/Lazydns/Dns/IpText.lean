import Mathlib.Data.List.TakeWhile
import Lazydns.Dns.Message
import Lazydns.Lib.Radix

/-!
# Addresses as text

`str::parse::<IpAddr>` of the standard library: a parser that reads numbers, separators and groups from the front of a text, an IPv4 address if there is one and else an IPv6 address. The text of an IPv4 address is the dotted one and no other: four decimal numbers without leading zeros.
-/

namespace Lazydns.IpText

/-! ### The parser -/

/-- `c.to_digit(radix)`. -/
def toDigit (radix : Nat) (c : Char) : Option Nat :=
  let digit :=
    if c.isDigit then c.toNat - 48
    else if c.isLower then c.toNat - 87
    else if c.isUpper then c.toNat - 55
    else radix
  if digit < radix then some digit else none

/-- `read_number`: as many digits as there are, which may be too many, none, or a forbidden leading zero. -/
def readNumber (radix maxDigits : Nat) (allowZeroPrefix : Bool) (s : List Char) : Option (Nat × List Char) :=
  let digits := s.takeWhile fun c => (toDigit radix c).isSome
  if digits = [] ∨ maxDigits < digits.length ∨
      (allowZeroPrefix = false ∧ digits.head? = some '0' ∧ 1 < digits.length) then none
  else
    some (digits.foldl (fun n c => radix * n + (toDigit radix c).getD 0) 0,
      s.dropWhile fun c => (toDigit radix c).isSome)

def readGivenChar (c : Char) : List Char → Option (List Char)
  | [] => none
  | c' :: s => if c' = c then some s else none

/-- `read_separator`: all but the first group come behind a separator. -/
def readSeparator {α : Type} (sep : Char) (index : Nat) (inner : List Char → Option (α × List Char)) (s : List Char) :
    Option (α × List Char) :=
  if 0 < index then (readGivenChar sep s).bind inner else inner s

/-- One group of an IPv4 address, which fits in a byte. -/
def readOctet (s : List Char) : Option (Nat × List Char) :=
  (readNumber 10 3 false s).filter fun octet => decide (octet.1 < 256)

/-- The loop of `read_ipv4_addr`. -/
def readOctets : Nat → Nat → List Char → Option (List Nat × List Char)
  | _, 0, s => some ([], s)
  | index, left + 1, s =>
    match readSeparator '.' index readOctet s with
    | none => none
    | some (octet, s) => (readOctets (index + 1) left s).map fun rest => (octet :: rest.1, rest.2)

def readIpv4Addr (s : List Char) : Option (List Nat × List Char) := readOctets 0 4 s

/-- `read_groups`: up to `limit` groups of an IPv6 address, of which the last two may be an IPv4 address. -/
def readGroups (limit : Nat) : Nat → List Char → List Nat × Bool × List Char
  | 0, s => ([], false, s)
  | left + 1, s =>
    let index := limit - (left + 1)
    match if index + 1 < limit then readSeparator ':' index readIpv4Addr s else none with
    | some ([one, two, three, four], s) => ([256 * one + two, 256 * three + four], true, s)
    | _ =>
      match readSeparator ':' index (readNumber 16 4 true) s with
      | none => ([], false, s)
      | some (group, s) =>
        let rest := readGroups limit left s
        (group :: rest.1, rest.2)

/-- `read_ipv6_addr`: eight groups, or fewer with two colons in place of the missing ones. -/
def readIpv6Addr (s : List Char) : Option (List Nat × List Char) :=
  let (head, ipv4, s) := readGroups 8 8 s
  if head.length = 8 then some (head, s)
  else if ipv4 then none
  else
    match (readGivenChar ':' s).bind (readGivenChar ':') with
    | none => none
    | some s =>
      let limit := 8 - (head.length + 1)
      let (tail, _, s) := readGroups limit limit s
      some (head ++ List.replicate (8 - tail.length - head.length) 0 ++ tail, s)

/-- `str::parse::<IpAddr>`: nothing may be left of the text. -/
def parse (text : String) : Option IpAddr :=
  match readIpv4Addr text.toList with
  | some (octets, rest) =>
    if rest = [] then some (.v4 (BitVec.ofNat 32 (octets.foldl (256 * · + ·) 0))) else none
  | none =>
    match readIpv6Addr text.toList with
    | some (groups, rest) =>
      if rest = [] then some (.v6 (BitVec.ofNat 128 (groups.foldl (65536 * · + ·) 0))) else none
    | none => none

/-! ### Decimal numbers -/

theorem toDigit_ten_iff {c : Char} {n : Nat} : toDigit 10 c = some n ↔ n < 10 ∧ c = n.digitChar := by
  have hchar : ∀ n < 10, Char.ofNat (48 + n) = n.digitChar ∧ toDigit 10 n.digitChar = some n := by decide
  constructor
  · intro h
    rw [toDigit] at h
    obtain ⟨hlt, heq⟩ := Option.ite_none_right_eq_some.mp h
    cases heq
    by_cases hdigit : c.isDigit
    · rw [if_pos hdigit] at hlt ⊢
      have hlow : 48 ≤ c.toNat := by
        simp only [Char.isDigit, Bool.and_eq_true, decide_eq_true_eq] at hdigit
        exact hdigit.1
      refine ⟨hlt, ?_⟩
      rw [← (hchar _ hlt).1, Nat.add_sub_cancel' hlow, Char.ofNat_toNat]
    · exfalso
      rw [if_neg hdigit] at hlt
      by_cases hlower : c.isLower
      · have hlow : 97 ≤ c.toNat := by
          simp only [Char.isLower.eq_def, Bool.and_eq_true, decide_eq_true_eq] at hlower
          exact hlower.1
        rw [if_pos hlower] at hlt
        omega
      · rw [if_neg hlower] at hlt
        by_cases hupper : c.isUpper
        · have hlow : 65 ≤ c.toNat := by
            simp only [Char.isUpper.eq_def, decide_eq_true_eq] at hupper
            exact hupper.1
          rw [if_pos hupper] at hlt
          omega
        · rw [if_neg hupper] at hlt
          exact Nat.lt_irrefl _ hlt
  · rintro ⟨hlt, rfl⟩
    exact (hchar n hlt).2

/-- The number that `read_number` makes of decimal digits. -/
def number (digits : List Char) : Nat := digits.foldl (fun n c => 10 * n + (toDigit 10 c).getD 0) 0

theorem number_append_singleton (digits : List Char) (c : Char) :
    number (digits ++ [c]) = 10 * number digits + (toDigit 10 c).getD 0 := by
  rw [number, List.foldl_append]
  rfl

theorem toDigits_number {digits : List Char} (hdigits : ∀ c ∈ digits, (toDigit 10 c).isSome) (hne : digits ≠ [])
    (hzero : digits.head? = some '0' → digits.length ≤ 1) : Nat.toDigits 10 (number digits) = digits := by
  induction digits using List.reverseRecOn with
  | nil => exact absurd rfl hne
  | append_singleton digits c ih =>
    obtain ⟨d, hd⟩ := Option.isSome_iff_exists.mp (hdigits c (List.mem_append_right _ List.mem_cons_self))
    obtain ⟨hlt, rfl⟩ := toDigit_ten_iff.mp hd
    rw [number_append_singleton, hd, Option.getD_some]
    by_cases hnil : digits = []
    · subst hnil
      rw [number, List.foldl_nil, Nat.mul_zero, Nat.zero_add, Nat.toDigits_of_lt_base hlt, List.nil_append]
    · have hhead : (digits ++ [d.digitChar]).head? = digits.head? := List.head?_append_of_ne_nil _ hnil
      have hnot : digits.head? ≠ some '0' := by
        intro h
        have hlength := hzero (hhead.trans h)
        have hpos := List.length_pos_of_ne_nil hnil
        rw [List.length_append, List.length_singleton] at hlength
        omega
      have hih := ih (fun c hc => hdigits c (List.mem_append_left _ hc)) hnil fun h => absurd h hnot
      have hpos : 0 < number digits := by
        rw [Nat.pos_iff_ne_zero]
        intro h
        rw [h, Nat.toDigits_zero] at hih
        rw [← hih] at hnot
        exact hnot rfl
      rw [← Nat.toDigits_append_toDigits (by decide) hpos hlt, hih, Nat.toDigits_of_lt_base hlt]

theorem isSome_toDigit_of_mem {n : Nat} {c : Char} (hc : c ∈ Nat.toDigits 10 n) : (toDigit 10 c).isSome := by
  have hdigit := Nat.isDigit_of_mem_toDigits (by decide) (by decide) hc
  have hhigh : c.toNat ≤ 57 := by
    simp only [Char.isDigit, Bool.and_eq_true, decide_eq_true_eq] at hdigit
    exact hdigit.2
  rw [toDigit, if_pos hdigit, if_pos (by omega)]
  rfl

theorem number_toDigits (n : Nat) : number (Nat.toDigits 10 n) = n := by
  induction n using Nat.strongRecOn with
  | ind n ih =>
    by_cases hn : n < 10
    · rw [Nat.toDigits_of_lt_base hn, ← List.nil_append [n.digitChar], number_append_singleton,
        toDigit_ten_iff.mpr ⟨hn, rfl⟩, Option.getD_some]
      exact Nat.zero_add n
    · have hmod : n % 10 < 10 := Nat.mod_lt n (by decide)
      rw [Nat.toDigits_of_base_le (by decide) (by omega), number_append_singleton, ih (n / 10) (by omega),
        toDigit_ten_iff.mpr ⟨hmod, rfl⟩, Option.getD_some]
      exact Nat.div_add_mod n 10

theorem eq_zero_of_head?_toDigits {n : Nat} (h : (Nat.toDigits 10 n).head? = some '0') : n = 0 := by
  induction n using Nat.strongRecOn with
  | ind n ih =>
    by_cases hn : n < 10
    · rw [Nat.toDigits_of_lt_base hn] at h
      have hzero : ∀ n < 10, [n.digitChar].head? = some '0' → n = 0 := by decide
      exact hzero n hn h
    · rw [Nat.toDigits_of_base_le (by decide) (by omega), List.head?_append_of_ne_nil _ Nat.toDigits_ne_nil] at h
      have hdiv := ih (n / 10) (by omega) h
      omega

/-! ### IPv4 addresses -/

def NoDigit (s : List Char) : Prop := ∀ c, s.head? = some c → (toDigit 10 c).isSome = false

theorem readOctet_eq_some {s rest : List Char} {n : Nat} (h : readOctet s = some (n, rest)) :
    n < 256 ∧ s = Nat.toDigits 10 n ++ rest := by
  obtain ⟨hread, hlt⟩ := Option.filter_eq_some_iff.mp h
  refine ⟨of_decide_eq_true hlt, ?_⟩
  rw [readNumber] at hread
  obtain ⟨hok, heq⟩ := Option.ite_none_left_eq_some.mp hread
  obtain ⟨hn, hrest⟩ := Prod.mk.inj (Option.some.inj heq)
  rw [not_or, not_or] at hok
  obtain ⟨hne, -, hzero⟩ := hok
  have hnumber : Nat.toDigits 10 n = s.takeWhile fun c => (toDigit 10 c).isSome := by
    rw [← hn]
    refine toDigits_number (fun c hc => List.mem_takeWhile_imp (p := fun c => (toDigit 10 c).isSome) hc) hne ?_
    intro hhead
    by_contra hlength
    exact hzero ⟨rfl, hhead, Nat.lt_of_not_le hlength⟩
  rw [hnumber, ← hrest, List.takeWhile_append_dropWhile]

theorem readOctet_append {rest : List Char} {n : Nat} (hn : n < 256) (hrest : NoDigit rest) :
    readOctet (Nat.toDigits 10 n ++ rest) = some (n, rest) := by
  have hdigits : ∀ c ∈ Nat.toDigits 10 n, (toDigit 10 c).isSome := fun c hc => isSome_toDigit_of_mem hc
  have hstop : rest.takeWhile (fun c => (toDigit 10 c).isSome) = [] ∧
      rest.dropWhile (fun c => (toDigit 10 c).isSome) = rest := by
    cases rest with
    | nil => exact ⟨rfl, rfl⟩
    | cons c rest =>
      have hc := hrest c rfl
      rw [List.takeWhile_cons, List.dropWhile_cons, hc]
      exact ⟨rfl, rfl⟩
  have hlength : (Nat.toDigits 10 n).length ≤ 3 := (Nat.length_toDigits_le_iff (by decide) (by decide)).mpr (by omega)
  rw [readOctet, readNumber, List.takeWhile_append_of_pos hdigits, List.dropWhile_append_of_pos hdigits, hstop.1, hstop.2,
    List.append_nil, if_neg]
  · rw [show (Nat.toDigits 10 n).foldl (fun n c => 10 * n + (toDigit 10 c).getD 0) 0 = n from number_toDigits n,
      Option.filter_some, decide_eq_true hn, if_pos rfl]
  · rintro (hnil | hlong | ⟨-, hhead, hone⟩)
    · exact Nat.toDigits_ne_nil hnil
    · exact absurd hlong (Nat.not_lt_of_le hlength)
    · rw [eq_zero_of_head?_toDigits hhead, Nat.toDigits_zero] at hone
      exact absurd hone (by decide)

/-- The octets behind the first one, each with its separator. -/
def separated (octets : List Nat) : List Char := octets.flatMap fun octet => '.' :: Nat.toDigits 10 octet

theorem separated_cons (octet : Nat) (octets : List Nat) :
    separated (octet :: octets) = '.' :: (Nat.toDigits 10 octet ++ separated octets) := by
  rw [separated, List.flatMap_cons]
  rfl

theorem noDigit_separated (octets : List Nat) {rest : List Char} (hrest : NoDigit rest) :
    NoDigit (separated octets ++ rest) := by
  cases octets with
  | nil => exact hrest
  | cons octet octets =>
    intro c hc
    cases hc
    decide

theorem readOctets_eq_some {left index : Nat} {s rest : List Char} {octets : List Nat}
    (h : readOctets (index + 1) left s = some (octets, rest)) :
    octets.length = left ∧ (∀ octet ∈ octets, octet < 256) ∧ s = separated octets ++ rest := by
  induction left generalizing index s octets with
  | zero =>
    cases h
    exact ⟨rfl, nofun, rfl⟩
  | succ left ih =>
    rw [readOctets, readSeparator, if_pos (Nat.succ_pos _)] at h
    cases s with
    | nil => cases h
    | cons c s =>
      by_cases hc : c = '.'
      · subst hc
        rw [readGivenChar, if_pos rfl, Option.bind_some] at h
        cases hoctet : readOctet s with
        | none =>
          rw [hoctet] at h
          cases h
        | some read =>
          rw [hoctet] at h
          obtain ⟨⟨octets', rest'⟩, hrest, heq⟩ := Option.map_eq_some_iff.mp h
          cases heq
          obtain ⟨hlt, hs⟩ := readOctet_eq_some hoctet
          obtain ⟨hlength, hall, hs'⟩ := ih hrest
          refine ⟨congrArg (· + 1) hlength, List.forall_mem_cons.mpr ⟨hlt, hall⟩, ?_⟩
          rw [hs, hs', separated_cons, List.cons_append, List.append_assoc]
      · rw [readGivenChar, if_neg hc] at h
        cases h

theorem readOctets_separated {octets : List Nat} (hoctets : ∀ octet ∈ octets, octet < 256) {rest : List Char}
    (hrest : NoDigit rest) (index : Nat) :
    readOctets (index + 1) octets.length (separated octets ++ rest) = some (octets, rest) := by
  induction octets generalizing index with
  | nil => rfl
  | cons octet octets ih =>
    obtain ⟨hlt, hall⟩ := List.forall_mem_cons.mp hoctets
    have hs : separated (octet :: octets) ++ rest = '.' :: (Nat.toDigits 10 octet ++ (separated octets ++ rest)) := by
      rw [separated_cons, List.cons_append, List.append_assoc]
    rw [hs, List.length_cons, readOctets, readSeparator, if_pos (Nat.succ_pos _), readGivenChar, if_pos rfl,
      Option.bind_some, readOctet_append hlt (noDigit_separated octets hrest)]
    dsimp only
    rw [ih hall, Option.map_some]

theorem intercalate_cons_eq (octet : Nat) (octets : List Nat) :
    ['.'].intercalate ((octet :: octets).map (Nat.toDigits 10)) = Nat.toDigits 10 octet ++ separated octets := by
  induction octets generalizing octet with
  | nil =>
    rw [List.map_cons, List.map_nil, List.intercalate_singleton]
    exact (List.append_nil _).symm
  | cons octet' octets ih =>
    rw [List.map_cons, List.intercalate_cons_of_ne_nil (by exact nofun), ih, separated_cons, List.append_assoc]
    rfl

/-- The octets of an address, the lowest first. -/
def octets (a : BitVec 32) : List Nat := Radix.digits 256 4 a.toNat

def dotted (a : BitVec 32) : List Char := ['.'].intercalate ((octets a).reverse.map (Nat.toDigits 10))

theorem readIpv4Addr_eq_some {s : List Char} {os : List Nat} :
    readIpv4Addr s = some (os, []) ↔
      os.length = 4 ∧ (∀ octet ∈ os, octet < 256) ∧ s = ['.'].intercalate (os.map (Nat.toDigits 10)) := by
  rw [readIpv4Addr, readOctets, readSeparator, if_neg (Nat.lt_irrefl 0)]
  constructor
  · intro h
    cases hoctet : readOctet s with
    | none =>
      rw [hoctet] at h
      cases h
    | some read =>
      rw [hoctet] at h
      obtain ⟨⟨octets, rest⟩, hrest, heq⟩ := Option.map_eq_some_iff.mp h
      cases heq
      obtain ⟨hlt, hs⟩ := readOctet_eq_some hoctet
      obtain ⟨hlength, hall, hs'⟩ := readOctets_eq_some hrest
      refine ⟨congrArg (· + 1) hlength, List.forall_mem_cons.mpr ⟨hlt, hall⟩, ?_⟩
      rw [intercalate_cons_eq, hs, hs', List.append_nil]
  · rintro ⟨hlength, hall, rfl⟩
    cases os with
    | nil => cases hlength
    | cons octet octets =>
      obtain ⟨hlt, hall⟩ := List.forall_mem_cons.mp hall
      have hnil : NoDigit [] := nofun
      have hread := readOctets_separated hall hnil 0
      rw [Nat.succ.inj hlength, List.append_nil] at hread
      have hfirst := readOctet_append hlt (noDigit_separated octets hnil)
      rw [List.append_nil] at hfirst
      rw [intercalate_cons_eq, hfirst]
      dsimp only
      rw [hread, Option.map_some]

/-- An IPv4 address is read from its dotted text alone. -/
theorem parse_eq_v4_iff {text : String} {a : BitVec 32} : parse text = some (.v4 a) ↔ text.toList = dotted a := by
  have hbound : a.toNat < 256 ^ 4 := a.isLt
  constructor
  · intro h
    rw [parse] at h
    cases hread : readIpv4Addr text.toList with
    | none =>
      exfalso
      rw [hread] at h
      cases hgroups : readIpv6Addr text.toList with
      | none =>
        rw [hgroups] at h
        cases h
      | some read =>
        rw [hgroups] at h
        obtain ⟨-, heq⟩ := Option.ite_none_right_eq_some.mp h
        cases heq
    | some read =>
      obtain ⟨os, rest⟩ := read
      rw [hread] at h
      obtain ⟨rfl, heq⟩ := Option.ite_none_right_eq_some.mp h
      obtain ⟨hlength, hall, htext⟩ := readIpv4Addr_eq_some.mp hread
      cases heq
      have hlt : os.foldl (256 * · + ·) 0 < 2 ^ 32 := by
        have hlt := Radix.value_lt hall
        rw [hlength] at hlt
        exact hlt
      have hvalue : octets (BitVec.ofNat 32 (os.foldl (256 * · + ·) 0)) = os.reverse := by
        have hvalue := Radix.digits_value hall
        rw [hlength] at hvalue
        rw [octets, BitVec.toNat_ofNat, Nat.mod_eq_of_lt hlt]
        exact hvalue
      rw [htext, dotted, hvalue, List.reverse_reverse]
  · intro h
    have hread : readIpv4Addr text.toList = some ((octets a).reverse, []) := by
      refine readIpv4Addr_eq_some.mpr ⟨?_, ?_, h⟩
      · rw [List.length_reverse]
        exact Radix.length_digits
      · intro octet hoctet
        exact Radix.lt_of_mem_digits (by decide) (List.mem_reverse.mp hoctet)
    rw [parse, hread]
    dsimp only
    rw [if_pos rfl, show (octets a).reverse.foldl (256 * · + ·) 0 = a.toNat from Radix.value_reverse_digits hbound,
      BitVec.ofNat_toNat, BitVec.setWidth_eq]

end Lazydns.IpText
