import Lazydns.Dns.Wire
import Lazydns.Plugin.Policy

/-!
# Which names the validator accepts

The grammar of a name is stated on its labels alone, and the validator accepts exactly the names of the grammar, and a dot for the root. A question that comes off the wire has no dot for the root: its name is empty, and is rejected for its length.
-/

namespace Lazydns

open Dns

namespace DomainValidatorPlugin

/-! ### The grammar -/

/-- `xn--` in any letter case, and at least one more byte. -/
def IsPunycode (label : List UInt8) : Prop :=
  ∃ x n rest, label = x :: n :: 45 :: 45 :: rest ∧ (x = 120 ∨ x = 88) ∧ (n = 110 ∨ n = 78) ∧ rest ≠ []

/-- One label: letters, digits and inner hyphens, with an underscore in front for a service binding. -/
structure LabelGrammar (strictMode : Bool) (qtype : Option RecordType) (label : List UInt8) : Prop where
  nonempty : 1 ≤ label.length
  short : label.length ≤ 63
  first : ∃ b, label.head? = some b ∧
    (isAsciiAlphanumeric b ∨ b = 95 ∧ (qtype = some .SVCB ∨ qtype = some .HTTPS))
  last : ∃ b, label.getLast? = some b ∧ isAsciiAlphanumeric b
  inner : ∀ b ∈ label.tail.dropLast, isAsciiAlphanumeric b ∨ b = 45
  hyphens : strictMode = true → [45, 45] <:+: label → IsPunycode label

/-- At most 253 bytes of labels with dots between them. -/
structure NameGrammar (strictMode : Bool) (qtype : Option RecordType) (domain : String) : Prop where
  short : (Bytes.ofString domain).length ≤ 253
  labels : ∀ label ∈ (Bytes.ofString domain).splitOn 46, LabelGrammar strictMode qtype label

/-! ### Labels -/

theorem doubleHyphen_iff (label : List UInt8) :
    ((label.zip label.tail).any fun p => p.1 == 45 && p.2 == 45) = true ↔ [45, 45] <:+: label := by
  induction label with
  | nil => decide
  | cons b rest ih =>
    cases rest with
    | nil =>
      refine iff_of_false nofun ?_
      intro h
      have hlength := h.length_le
      cases hlength with
      | step hlength => cases hlength
    | cons b' rest =>
      rw [List.infix_cons_iff, ← ih, List.tail_cons, List.zip_cons_cons, List.any_cons, Bool.or_eq_true]
      refine or_congr_left ?_
      rw [Bool.and_eq_true, beq_iff_eq, beq_iff_eq, List.cons_prefix_cons, List.cons_prefix_cons,
        and_iff_left (List.nil_prefix ..), eq_comm, eq_comm (a := b')]

private theorem lower_eq_iff {b c : UInt8} (hc : 97 ≤ c ∧ c ≤ 122) :
    (if 65 ≤ b && b ≤ 90 then b + 32 else b) = c ↔ b = c ∨ b = c - 32 := by
  by_cases hb : 65 ≤ b ∧ b ≤ 90
  · rw [if_pos (by simpa using hb)]
    grind
  · rw [if_neg (by simpa using hb)]
    grind

theorem isPunycode_iff (label : List UInt8) :
    (decide (5 ≤ label.length) &&
      (label.take 4).map (fun b => if 65 ≤ b && b ≤ 90 then b + 32 else b) == [120, 110, 45, 45]) = true ↔
      IsPunycode label := by
  have hhyphen : ∀ b : UInt8, (if 65 ≤ b && b ≤ 90 then b + 32 else b) = 45 ↔ b = 45 := by
    intro b
    grind
  rw [Bool.and_eq_true, decide_eq_true_eq, beq_iff_eq]
  constructor
  · rintro ⟨hlength, hlower⟩
    obtain ⟨x, n, h, h', r, rest, rfl⟩ : ∃ x n h h' r rest, label = x :: n :: h :: h' :: r :: rest := by
      match label, hlength with
      | x :: n :: h :: h' :: r :: rest, _ => exact ⟨x, n, h, h', r, rest, rfl⟩
    simp only [List.take_succ_cons, List.take_zero, List.map_cons, List.map_nil, List.cons.injEq, and_true]
      at hlower
    obtain ⟨hx, hn, hh, hh'⟩ := hlower
    rw [hhyphen] at hh hh'
    subst hh hh'
    exact ⟨x, n, r :: rest, rfl, (lower_eq_iff (by decide)).mp hx, (lower_eq_iff (by decide)).mp hn,
      nofun⟩
  · rintro ⟨x, n, rest, rfl, hx, hn, hrest⟩
    obtain ⟨r, rest, rfl⟩ := List.exists_cons_of_ne_nil hrest
    refine ⟨by simp, ?_⟩
    have hx' := (lower_eq_iff (c := 120) (by decide)).mpr hx
    have hn' := (lower_eq_iff (c := 110) (by decide)).mpr hn
    simp only [List.take_succ_cons, List.take_zero, List.map_cons, List.map_nil, hx', hn',
      (hhyphen 45).mpr rfl]

theorem checkLabel_eq_none_iff (strictMode : Bool) (qtype : Option RecordType) (label : List UInt8) :
    checkLabel strictMode qtype label = none ↔ LabelGrammar strictMode qtype label := by
  have hfirst : (!(label.head?.any isAsciiAlphanumeric) &&
      !(label.head? == some 95 && (qtype == some .SVCB || qtype == some .HTTPS))) = false ↔
      ∃ b, label.head? = some b ∧
        (isAsciiAlphanumeric b ∨ b = 95 ∧ (qtype = some .SVCB ∨ qtype = some .HTTPS)) := by
    cases label.head? with
    | none => simp
    | some b =>
      cases hb : isAsciiAlphanumeric b with
      | false => simp [hb, or_iff_not_imp_left]
      | true => simp [hb]
  have hlast : (!(label.getLast?.any isAsciiAlphanumeric)) = false ↔
      ∃ b, label.getLast? = some b ∧ isAsciiAlphanumeric b := by
    cases label.getLast? <;> simp
  have hinner : (!(label.tail.dropLast.all fun b => isAsciiAlphanumeric b || b == 45)) = false ↔
      ∀ b ∈ label.tail.dropLast, isAsciiAlphanumeric b ∨ b = 45 := by
    simp
  have hhyphens : (strictMode && ((label.zip label.tail).any fun p => p.1 == 45 && p.2 == 45) &&
      !(decide (5 ≤ label.length) &&
        (label.take 4).map (fun b => if 65 ≤ b && b ≤ 90 then b + 32 else b) == [120, 110, 45, 45])) = false ↔
      (strictMode = true → [45, 45] <:+: label → IsPunycode label) := by
    rw [← doubleHyphen_iff, ← isPunycode_iff]
    cases strictMode <;> simp
  have hlength : (label.isEmpty || decide (63 < label.length)) = false ↔
      1 ≤ label.length ∧ label.length ≤ 63 := by
    rw [Bool.or_eq_false_iff, List.isEmpty_eq_false_iff, ← List.length_pos_iff, decide_eq_false_iff_not,
      Nat.not_lt]
    rfl
  have hgrammar : LabelGrammar strictMode qtype label ↔ _ ∧ _ ∧ _ ∧ _ ∧ _ :=
    ⟨fun h => ⟨hlength.mpr ⟨h.nonempty, h.short⟩, hfirst.mpr h.first, hlast.mpr h.last, hinner.mpr h.inner,
      hhyphens.mpr h.hyphens⟩,
    fun ⟨h₁, h₂, h₃, h₄, h₅⟩ => ⟨(hlength.mp h₁).1, (hlength.mp h₁).2, hfirst.mp h₂, hlast.mp h₃,
      hinner.mp h₄, hhyphens.mp h₅⟩⟩
  have hnone : ∀ (c : Bool) (reason : String) (rest : Option String),
      (if c then some reason else rest) = none ↔ c = false ∧ rest = none := by
    intro c reason rest
    cases c with
    | false => exact (and_iff_right rfl).symm
    | true => exact iff_of_false nofun nofun
  rw [hgrammar, checkLabel, hnone]
  dsimp only
  rw [hnone, hnone, hnone, hnone, and_iff_left rfl]

/-! ### Names -/

theorem NameGrammar.ne_empty {strictMode : Bool} {qtype : Option RecordType} {domain : String}
    (h : NameGrammar strictMode qtype domain) : domain ≠ "" := by
  rintro rfl
  have hlabel := h.labels [] (by decide)
  exact absurd hlabel.nonempty (by decide)

/-- The validator accepts the grammar, and the dot. -/
theorem validateDomainWithQtype_eq_valid_iff (strictMode : Bool) (domain : String)
    (qtype : Option RecordType) :
    validateDomainWithQtype strictMode domain qtype = .valid ↔
      domain = "." ∨ NameGrammar strictMode qtype domain := by
  have hbytes : domain.toList.flatMap String.utf8EncodeChar = Bytes.ofString domain := by
    rw [← Bytes.ofString_ofList, String.ofList_toList]
  rw [validateDomainWithQtype, hbytes]
  by_cases hlength : (Bytes.ofString domain).isEmpty || decide (253 < (Bytes.ofString domain).length)
  · rw [if_pos hlength]
    refine iff_of_false nofun ?_
    rw [Bool.or_eq_true, List.isEmpty_iff, decide_eq_true_eq] at hlength
    rintro (rfl | h)
    · revert hlength
      decide
    · rcases hlength with hempty | hlong
      · have hlabel := h.labels [] (by rw [hempty]; decide)
        exact absurd hlabel.nonempty (by decide)
      · exact absurd h.short (by omega)
  · rw [if_neg hlength]
    rw [Bool.or_eq_true, not_or, decide_eq_true_eq, Nat.not_lt] at hlength
    by_cases hroot : domain = "."
    · rw [if_pos hroot]
      exact iff_of_true rfl (.inl hroot)
    · rw [if_neg hroot, or_iff_right hroot]
      have hlabels : ((Bytes.ofString domain).splitOn 46).findSome? (checkLabel strictMode qtype) = none ↔
          NameGrammar strictMode qtype domain := by
        rw [List.findSome?_eq_none_iff]
        constructor
        · intro h
          exact ⟨hlength.2, fun label hmem =>
            (checkLabel_eq_none_iff strictMode qtype label).mp (h label hmem)⟩
        · intro h label hmem
          exact (checkLabel_eq_none_iff strictMode qtype label).mpr (h.labels label hmem)
      rw [← hlabels]
      cases ((Bytes.ofString domain).splitOn 46).findSome? (checkLabel strictMode qtype) with
      | none => exact iff_of_true rfl rfl
      | some reason => exact iff_of_false nofun nofun

/-! ### Names off the wire -/

/-- The root domain, which the wire decoder delivers as the empty name, and the names of the grammar. -/
def ShouldAccept (strictMode : Bool) (qtype : Option RecordType) (domain : String) : Prop :=
  domain = "" ∨ NameGrammar strictMode qtype domain

theorem unrootedName_ne_dot {toUtf8 : Hickory.Name → String} {name : Hickory.Name} (h : toUtf8 name ≠ "..") :
    unrootedName toUtf8 name ≠ "." := by
  rw [unrootedName, stripRoot]
  split
  · rename_i hlast
    intro hdot
    refine h ?_
    have hlist : (toUtf8 name).toList.dropLast = ['.'] := by
      rw [← String.toList_ofList (l := (toUtf8 name).toList.dropLast), hdot]
      rfl
    rw [← String.ofList_toList (s := toUtf8 name), ← List.dropLast_append_getLast? '.' hlast, hlist]
    rfl
  · rename_i hlast
    rintro hdot
    rw [hdot] at hlast
    exact hlast rfl

/-- On the names that come off the wire the validator accepts what it should, the root apart. -/
theorem acceptsGrammar_iff {toUtf8 : Hickory.Name → String} {h : Hickory.Message}
    (htext : ∀ q ∈ h.queries, toUtf8 q.name ≠ "..") {q : Question}
    (hq : q ∈ (convertFromHickory toUtf8 h).questions)
    (strictMode : Bool) (qtype : Option RecordType) :
    (validateDomainWithQtype strictMode q.qname qtype = .valid ↔ ShouldAccept strictMode qtype q.qname) ↔
      q.qname ≠ "" := by
  obtain ⟨query, hquery, rfl⟩ := List.mem_map.mp hq
  have hdot : (convertHickoryQuery toUtf8 query).qname ≠ "." := unrootedName_ne_dot (htext query hquery)
  rw [validateDomainWithQtype_eq_valid_iff, ShouldAccept, or_iff_right hdot]
  constructor
  · intro haccepts hroot
    exact (haccepts.mpr (.inl hroot)).ne_empty hroot
  · intro hname
    exact (or_iff_right hname).symm

def queryFor (name : Hickory.Name) (queryType : UInt16) : Hickory.Message where
  id := 1
  isResponse := false
  opcode := .query
  aa := false
  tc := false
  rd := true
  ra := false
  ad := false
  cd := false
  rcode := 0
  queries := [.query name queryType]
  answers := []
  nameServers := []
  additionals := []
  edns := none

/-- The name `a` is accepted, as it should be. -/
theorem acceptsGrammar_iff_letter :
    validateDomainWithQtype true "a" (some .A) = .valid ↔ ShouldAccept true (some .A) "a" :=
  (@acceptsGrammar_iff (fun _ => "a.") (queryFor [[97]] 1) (by decide) ⟨"a", .A, .IN⟩ (by decide) true
    (some .A)).mpr (by decide)

/-- A query for the name servers of the root: the name is empty, and is rejected. -/
theorem not_accepts_root : let question : Question := ⟨"", .NS, .IN⟩
    question ∈ (convertFromHickory (fun _ => ".") (queryFor [] 2)).questions ∧
      validateDomainWithQtype true question.qname (some question.qtype) = .invalid "invalid length" ∧
      ¬ (validateDomainWithQtype true question.qname (some question.qtype) = .valid ↔
        ShouldAccept true (some question.qtype) question.qname) := by
  refine ⟨by decide, by decide, ?_⟩
  intro h
  exact absurd (h.mpr (.inl rfl)) (by decide)

end DomainValidatorPlugin

end Lazydns
