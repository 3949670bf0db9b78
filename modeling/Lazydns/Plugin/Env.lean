import Lazydns.Dns.Wire

/-!
# What the server takes from outside

The functions of libraries and of the network that the modelled code calls: Unicode lowercasing, the wire library's name parser and encoder, the upstream servers, the operating system's answers to the plugins that call out. Every theorem holds for whatever they are, unless it names an assumption about them. The string helpers of the standard library that the plugins use are here as well.
-/

namespace Lazydns

open Dns

/-- The errors plugins return, by kind. -/
inductive Error where
  | config (reason : String)
  | dnsProtocol (reason : String)
  | upstreamTimeout (upstream : String)
  | connection (address : String)
  | other (reason : String)
  deriving DecidableEq, Repr

structure Env where
  /-- `str::to_lowercase`, on Unicode text. -/
  toLowercase : String → String
  /-- `str::parse::<IpAddr>`. -/
  parseIp : String → Option IpAddr
  /-- `Name::from_utf8`. -/
  fromUtf8 : String → Option Hickory.Name
  /-- Whether the encoder accepts a message. -/
  emits : Hickory.Message → Bool
  /-- The number of bytes the encoder writes. -/
  size : Hickory.Message → Nat
  /-- The `n`-th exchange with an upstream: the parsed reply or the error, and how long it took in milliseconds. -/
  exchange : Nat → String → Hickory.Message → Except Error Message × Nat
  /-- The id the UDP multiplexer assigns to the `n`-th exchange. -/
  qid : Nat → UInt16
  /-- The nanoseconds of the system clock at the `n`-th random choice of an upstream. -/
  nanos : Nat → Nat
  /-- Whether the `n`-th run of the downloader succeeds. -/
  download : Nat → Except Error Unit

/-- `serialize_message`, as the wire library's message the bytes encode. -/
def Env.serialize (env : Env) (m : Message) : Option Hickory.Message :=
  (convertToHickory env.fromUtf8 m).filter env.emits

/-- So does its question section. -/
theorem Env.serialize_queries (env : Env) {m : Message} {h : Hickory.Message}
    (hs : env.serialize m = some h) :
    m.questions.mapM (convertQuestion env.fromUtf8) = some h.queries := by
  obtain ⟨hconv, -⟩ := Option.filter_eq_some_iff.mp hs
  rw [convertToHickory] at hconv
  obtain ⟨queries, hqueries, hconv⟩ := Option.bind_eq_some_iff.mp hconv
  obtain ⟨_, -, hconv⟩ := Option.bind_eq_some_iff.mp hconv
  obtain ⟨_, -, hconv⟩ := Option.bind_eq_some_iff.mp hconv
  obtain ⟨_, -, hconv⟩ := Option.bind_eq_some_iff.mp hconv
  cases Option.some.inj hconv
  exact hqueries

/-! ### Strings -/

/-- `s.strip_prefix(p)`. -/
def stripPrefix (p s : String) : Option String :=
  if p.toList.isPrefixOf s.toList then some (String.ofList (s.toList.drop p.toList.length)) else none

/-- `s.strip_suffix(p)`. -/
def stripSuffix (p s : String) : Option String :=
  if p.toList.isSuffixOf s.toList then
    some (String.ofList (s.toList.take (s.toList.length - p.toList.length)))
  else none

theorem stripPrefix_eq_some_iff {p s t : String} : stripPrefix p s = some t ↔ s = p ++ t := by
  rw [stripPrefix, ← String.toList_inj, String.toList_append]
  by_cases hpre : p.toList.isPrefixOf s.toList
  · obtain ⟨rest, hrest⟩ := List.isPrefixOf_iff_prefix.mp hpre
    rw [if_pos hpre, ← hrest, List.drop_left, Option.some_inj, List.append_cancel_left_eq, ← String.toList_inj,
      String.toList_ofList]
  · rw [if_neg hpre]
    refine ⟨nofun, fun h => ?_⟩
    exact absurd (List.isPrefixOf_iff_prefix.mpr ⟨_, h.symm⟩) hpre

theorem stripSuffix_eq_some_iff {p s t : String} : stripSuffix p s = some t ↔ s = t ++ p := by
  rw [stripSuffix, ← String.toList_inj, String.toList_append]
  by_cases hsuf : p.toList.isSuffixOf s.toList
  · obtain ⟨rest, hrest⟩ := List.isSuffixOf_iff_suffix.mp hsuf
    rw [if_pos hsuf, ← hrest, List.length_append, Nat.add_sub_cancel, List.take_left, Option.some_inj,
      List.append_cancel_right_eq, ← String.toList_inj, String.toList_ofList]
  · rw [if_neg hsuf]
    refine ⟨nofun, fun h => ?_⟩
    exact absurd (List.isSuffixOf_iff_suffix.mpr ⟨_, h.symm⟩) hsuf

/-- The characters of the Unicode property `White_Space`. -/
def isWhitespace (c : Char) : Bool :=
  c.toNat ∈ [0x20, 0x85, 0xA0, 0x1680, 0x2028, 0x2029, 0x202F, 0x205F, 0x3000] ||
    (9 ≤ c.toNat && c.toNat ≤ 13) || (0x2000 ≤ c.toNat && c.toNat ≤ 0x200A)

/-- `s.trim()`. -/
def trim (s : String) : String :=
  String.ofList ((s.toList.dropWhile isWhitespace).reverse.dropWhile isWhitespace).reverse

/-- `s.trim_end_matches('.')`. -/
def trimEndDots (s : String) : String :=
  String.ofList (s.toList.reverse.dropWhile (· = '.')).reverse

/-- A text has one part more than separators. -/
theorem length_splitOn (cs : List Char) (c : Char) : (cs.splitOn c).length = cs.count c + 1 := by
  induction cs with
  | nil => rfl
  | cons c' cs ih =>
    rw [List.splitOn_cons_eq_if_modifyHead, List.count_cons]
    by_cases hc : c' == c
    · rw [if_pos hc, if_pos hc, List.length_cons, ih]
    · rw [if_neg hc, if_neg hc, List.length_modifyHead, ih, Nat.add_zero]

end Lazydns
