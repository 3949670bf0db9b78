import Mathlib.Data.List.TakeWhile
import Lazydns.Plugin.RuleSpec

/-!
# Rule files and their documentation

The optimised rule set answers as the list of its lines does, each read by itself, whatever their order. It reads a line as documented, except that it does not cut trailing dots off the names in the rules, and that it takes a keyword in capitals for the start of a name.
-/

namespace Lazydns

namespace DomainRules

variable (env : RuleEnv)

/-! ### The lines as they are read -/

/-- The rule that `add_line` adds. -/
def lineRule (defaultType : MatchType) (line : String) : Option Rule :=
  let split := splitLine defaultType (trim line)
  let value := trim split.2
  if IsRuleLine line ∧ value ≠ "" then
    some ⟨split.1, match split.1 with
      | .regexp => value
      | _ => env.toLowercase value⟩
  else none

def load (defaultType : MatchType) (lines : List String) : DomainRules :=
  lines.foldl (fun rules line => rules.addLine env line defaultType) new

def answers (rules : DomainRules) (name : String) : Bool :=
  rules.full.contains name || (candidates name).any (rules.domain.contains ·) ||
    rules.regexp.any (fun rule => rule.regex name) || rules.keyword.any (fun kw => kw.toList <:+: name.toList)

theorem matches_eq_answers (rules : DomainRules) (name : String) :
    rules.matches env name = rules.answers (normalise env name) := rfl

theorem any_candidates (domains : List String) (name : String) :
    (candidates name).any (domains.contains ·) = domains.any fun domain => decide (Under name domain) := by
  rw [Bool.eq_iff_iff, List.any_eq_true, List.any_eq_true]
  constructor
  · rintro ⟨domain, hcandidate, hdomain⟩
    exact ⟨domain, List.contains_iff_mem.mp hdomain, decide_eq_true (mem_candidates.mp hcandidate)⟩
  · rintro ⟨domain, hdomain, hunder⟩
    exact ⟨domain, mem_candidates.mpr (of_decide_eq_true hunder), List.contains_iff_mem.mpr hdomain⟩

theorem answers_eq (rules : DomainRules) (name : String) :
    rules.answers name = ((rules.full.any (name == ·) || rules.domain.any fun domain => decide (Under name domain)) ||
      (rules.regexp.any (fun rule => rule.regex name) || rules.keyword.any fun kw => kw.toList <:+: name.toList)) := by
  rw [answers, any_candidates, List.contains_eq_any_beq, Bool.or_assoc]

theorem answers_merge (rules rules' : DomainRules) (name : String) :
    (rules.merge rules').answers name = (rules.answers name || rules'.answers name) := by
  simp only [answers_eq, merge, List.any_append]
  ac_rfl

theorem answers_new (name : String) : new.answers name = false := by
  rw [answers_eq]
  rfl

theorem answers_addLine (rules : DomainRules) (line : String) (defaultType : MatchType) (name : String) :
    (rules.addLine env line defaultType).answers name =
      (rules.answers name || (new.addLine env line defaultType).answers name) := by
  rw [addLine_eq_merge, answers_merge]

theorem answers_addRule (matchType : MatchType) {value : String} (hvalue : value ≠ "") (name : String) :
    (new.addRule env matchType value).answers name =
      (Rule.mk matchType (match matchType with
        | .regexp => value
        | _ => env.toLowercase value)).matches env name := by
  rw [answers_eq]
  unfold addRule
  rw [if_neg hvalue]
  cases matchType with
  | full =>
    simp only [new, List.nil_append, List.any_cons, List.any_nil, Bool.or_false, Rule.matches]
    exact Bool.beq_comm
  | domain => simp only [new, List.nil_append, List.any_cons, List.any_nil, Bool.or_false, Bool.false_or, Rule.matches]
  | keyword => simp only [new, List.nil_append, List.any_cons, List.any_nil, Bool.or_false, Bool.false_or, Rule.matches]
  | regexp =>
    dsimp only [Rule.matches]
    cases env.regex value with
    | none => rfl
    | some regex =>
      simp only [new, List.nil_append, List.any_cons, List.any_nil, Bool.or_false, Bool.false_or, Option.any_some]

variable {env} (hlower : LowersLetters env.toLowercase)

include hlower

theorem answers_line (line : String) (defaultType : MatchType) (name : String) :
    (new.addLine env line defaultType).answers name = (lineRule env defaultType line).any fun rule =>
      rule.matches env name := by
  rw [addLine, lineRule]
  by_cases hline : IsRuleLine line
  · rw [if_neg hline]
    dsimp only
    by_cases hvalue : trim (splitLine defaultType (trim line)).2 = ""
    · rw [if_pos hvalue, if_neg (fun h => h.2 hvalue), answers_new]
      rfl
    · rw [if_neg hvalue, if_pos ⟨hline, hvalue⟩, Option.any_some]
      cases (splitLine defaultType (trim line)).1 with
      | regexp => exact answers_addRule env .regexp hvalue name
      | full => rw [answers_addRule env .full (hlower.ne_empty _ hvalue), hlower.idem]
      | domain => rw [answers_addRule env .domain (hlower.ne_empty _ hvalue), hlower.idem]
      | keyword => rw [answers_addRule env .keyword (hlower.ne_empty _ hvalue), hlower.idem]
  · rw [if_pos (not_not.mp hline), if_neg (fun h => hline h.1), answers_new]
    rfl

theorem answers_load (lines : List String) (defaultType : MatchType) (name : String) :
    (load env defaultType lines).answers name =
      lines.any fun line => (lineRule env defaultType line).any fun rule => rule.matches env name := by
  have hfold : ∀ rules : DomainRules,
      (lines.foldl (fun rules line => rules.addLine env line defaultType) rules).answers name =
        (rules.answers name || lines.any fun line => (lineRule env defaultType line).any fun rule =>
          rule.matches env name) := by
    induction lines with
    | nil => exact fun rules => (Bool.or_false _).symm
    | cons line lines ih =>
      intro rules
      rw [List.foldl_cons, ih, answers_addLine, answers_line hlower, List.any_cons, Bool.or_assoc]
  rw [load, hfold, answers_new, Bool.false_or]

end DomainRules

/-! ### Keywords -/

/-- The characters that trimming and lowering leave as they are, and that no keyword has but at its end. -/
def IsMark (c : Char) : Prop := c = ':' ∨ c = '.'

theorem IsMark.count_map_toLower {c : Char} (h : IsMark c) (cs : List Char) :
    (cs.map Char.toLower).count c = cs.count c := by
  rcases h with rfl | rfl
  · exact Lazydns.count_map_toLower (by decide) (by decide) cs
  · exact Lazydns.count_map_toLower (by decide) (by decide) cs

theorem IsMark.not_isWhitespace {c : Char} (h : IsMark c) : isWhitespace c = false := by
  rcases h with rfl | rfl <;> decide

theorem count_dropWhile_of_not {c : Char} {p : Char → Bool} (hc : p c = false) (cs : List Char) :
    (cs.dropWhile p).count c = cs.count c := by
  have hnone : (cs.takeWhile p).count c = 0 := by
    rw [List.count_eq_zero]
    intro hmem
    have := List.mem_takeWhile_imp hmem
    rw [hc] at this
    cases this
  conv_rhs => rw [← List.takeWhile_append_dropWhile (p := p) (l := cs)]
  rw [List.count_append, hnone, Nat.zero_add]

theorem IsMark.count_trim {c : Char} (h : IsMark c) (s : String) : (trim s).toList.count c = s.toList.count c := by
  rw [trim, String.toList_ofList, List.count_reverse, count_dropWhile_of_not h.not_isWhitespace, List.count_reverse,
    count_dropWhile_of_not h.not_isWhitespace]

theorem IsMark.count_of_stripKeyword {c : Char} (h : IsMark c) {keyword line rest : String}
    (hstrip : stripKeyword keyword line = some rest) :
    line.toList.count c = keyword.toList.count c + rest.toList.count c := by
  rw [stripKeyword] at hstrip
  split at hstrip
  · rename_i hkeyword
    cases hstrip
    have htake := h.count_map_toLower (line.toList.take keyword.toList.length)
    rw [hkeyword] at htake
    rw [String.toList_ofList, htake, ← List.count_append, List.take_append_drop]
  · cases hstrip

def keywords : List (String × MatchType) :=
  [("full:", .full), ("domain:", .domain), ("keyword:", .keyword), ("regexp:", .regexp)]

/-- The first keyword that can be stripped decides. -/
def splitWith (strip : String → Option String) (defaultType : MatchType) (line : String) : MatchType × String :=
  (keywords.findSome? fun k => (strip k.1).map (Prod.mk k.2)).getD (defaultType, line)

theorem splitLine_eq (defaultType : MatchType) (line : String) :
    DomainRules.splitLine defaultType line = splitWith (stripPrefix · line) defaultType line := by
  unfold DomainRules.splitLine splitWith keywords
  simp only [List.findSome?]
  cases stripPrefix "full:" line with
  | some rest => rfl
  | none =>
    cases stripPrefix "domain:" line with
    | some rest => rfl
    | none =>
      cases stripPrefix "keyword:" line with
      | some rest => rfl
      | none => cases stripPrefix "regexp:" line <;> rfl

theorem splitAnyCase_eq (defaultType : MatchType) (line : String) :
    splitAnyCase defaultType line = splitWith (stripKeyword · line) defaultType line := by
  unfold splitAnyCase splitWith keywords
  simp only [List.findSome?]
  cases stripKeyword "full:" line with
  | some rest => rfl
  | none =>
    cases stripKeyword "domain:" line with
    | some rest => rfl
    | none =>
      cases stripKeyword "keyword:" line with
      | some rest => rfl
      | none => cases stripKeyword "regexp:" line <;> rfl

theorem stripKeyword_of_stripPrefix {k : String × MatchType} (hk : k ∈ keywords) {line rest : String}
    (h : stripPrefix k.1 line = some rest) : stripKeyword k.1 line = some rest := by
  rw [stripPrefix] at h
  split at h
  · rename_i hstart
    have htake : line.toList.take k.1.toList.length = k.1.toList :=
      (List.prefix_iff_eq_take.mp (List.isPrefixOf_iff_prefix.mp hstart)).symm
    have hlower : ∀ k ∈ keywords, k.1.toList.map Char.toLower = k.1.toList := by decide
    rw [stripKeyword, htake, if_pos (hlower k hk), h]
  · cases h

/-- The keywords begin with different letters, so a line has at most one. -/
theorem eq_of_stripKeyword {k k' : String × MatchType} (hk : k ∈ keywords) (hk' : k' ∈ keywords)
    {line rest rest' : String} (h : stripKeyword k.1 line = some rest) (h' : stripKeyword k'.1 line = some rest') :
    k = k' := by
  have hhead : ∀ (k : String × MatchType) (rest : String), k ∈ keywords → stripKeyword k.1 line = some rest →
      k.1.toList.head? = line.toList.head?.map Char.toLower := by
    intro k rest hk h
    rw [stripKeyword] at h
    split at h
    · rename_i hkeyword
      have hlength : ∀ k ∈ keywords, k.1.toList.length ≠ 0 := by decide
      rw [← hkeyword, List.head?_map, List.head?_take, if_neg (hlength k hk)]
    · cases h
  have hletters : ∀ k ∈ keywords, ∀ k' ∈ keywords, k.1.toList.head? = k'.1.toList.head? → k = k' := by decide
  exact hletters k hk k' hk' ((hhead k rest hk h).trans (hhead k' rest' hk' h').symm)

/-- A line is split as documented, or its keyword is not seen. -/
theorem split_cases (defaultType : MatchType) (line : String) :
    splitAnyCase defaultType line = DomainRules.splitLine defaultType line ∨
      DomainRules.splitLine defaultType line = (defaultType, line) ∧
        ∃ k ∈ keywords, stripKeyword k.1 line = some (splitAnyCase defaultType line).2 := by
  rw [splitAnyCase_eq, splitLine_eq, splitWith, splitWith]
  cases hstart : keywords.findSome? fun k => (stripPrefix k.1 line).map (Prod.mk k.2) with
  | some split =>
    left
    obtain ⟨k, hk, hmap⟩ := List.exists_of_findSome?_eq_some hstart
    obtain ⟨rest, hrest, rfl⟩ := Option.map_eq_some_iff.mp hmap
    have hstrip := stripKeyword_of_stripPrefix hk hrest
    cases hkeyword : keywords.findSome? fun k => (stripKeyword k.1 line).map (Prod.mk k.2) with
    | none =>
      have hnone := List.findSome?_eq_none_iff.mp hkeyword k hk
      rw [hstrip] at hnone
      cases hnone
    | some split' =>
      obtain ⟨k', hk', hmap'⟩ := List.exists_of_findSome?_eq_some hkeyword
      obtain ⟨rest', hrest', rfl⟩ := Option.map_eq_some_iff.mp hmap'
      obtain rfl := eq_of_stripKeyword hk hk' hstrip hrest'
      rw [hstrip] at hrest'
      cases hrest'
      rfl
  | none =>
    cases hkeyword : keywords.findSome? fun k => (stripKeyword k.1 line).map (Prod.mk k.2) with
    | none => exact .inl rfl
    | some split' =>
      right
      obtain ⟨k', hk', hmap'⟩ := List.exists_of_findSome?_eq_some hkeyword
      obtain ⟨rest', hrest', rfl⟩ := Option.map_eq_some_iff.mp hmap'
      exact ⟨rfl, k', hk', hrest'⟩

/-! ### Lines that are read as documented -/

/-- A line without a keyword in capitals and without a trailing dot on a name. -/
def WellWritten (defaultType : MatchType) (line : String) : Prop :=
  let split := DomainRules.splitLine defaultType (trim line)
  IsRuleLine line → splitAnyCase defaultType (trim line) = split ∧
    (split.1 = .full ∨ split.1 = .domain → ¬EndsWithDot (trim split.2))

instance (defaultType : MatchType) (line : String) : Decidable (WellWritten defaultType line) :=
  inferInstanceAs (Decidable (_ → _ ∧ (_ → ¬_)))

theorem lineRule_eq_documentedRule {env : RuleEnv} {defaultType : MatchType} {line : String}
    (h : WellWritten defaultType line) :
    DomainRules.lineRule env defaultType line = documentedRule env defaultType line := by
  rw [DomainRules.lineRule, documentedRule]
  by_cases hline : IsRuleLine line
  · obtain ⟨hsplit, hdot⟩ := h hline
    rw [hsplit]
    refine if_congr Iff.rfl (congrArg some (congrArg (Rule.mk _) ?_)) rfl
    generalize hkind : (DomainRules.splitLine defaultType (trim line)).1 = kind at hdot
    cases kind with
    | full => rw [normalise, trimEndDots_of_not (hdot (.inl rfl))]
    | domain => rw [normalise, trimEndDots_of_not (hdot (.inr rfl))]
    | keyword => rfl
    | regexp => rfl
  · rw [if_neg (fun hand => hline hand.1), if_neg (fun hand => hline hand.1)]

/-- A list of lines answers as documented. -/
def FollowsDocs (env : RuleEnv) (defaultType : MatchType) (lines : List String) : Prop :=
  ∀ name, (DomainRules.load env defaultType lines).matches env name = true ↔ Documented env defaultType lines name

theorem followsDocs_of_wellWritten {env : RuleEnv} (hlower : LowersLetters env.toLowercase) {defaultType : MatchType}
    {lines : List String} (h : ∀ line ∈ lines, WellWritten defaultType line) : FollowsDocs env defaultType lines := by
  intro name
  rw [DomainRules.matches_eq_answers, DomainRules.answers_load hlower, List.any_eq_true, Documented]
  refine exists_congr fun line => and_congr_right fun hline => ?_
  rw [lineRule_eq_documentedRule (h line hline), Option.any_eq_true]

/-! ### Lines that are not -/

theorem count_le_of_under {name domain : String} (h : Under name domain) (c : Char) :
    domain.toList.count c ≤ name.toList.count c := by
  rcases h with rfl | hsuffix
  · exact Nat.le_refl _
  · exact ((List.sublist_cons_self _ _).trans hsuffix.sublist).count_le c

/-- A rule with more colons than the name does not match it. -/
theorem not_matches_of_colons {env : RuleEnv} {rule : Rule} {name : String} (hkind : rule.matchType ≠ .regexp)
    (hcolons : name.toList.count ':' < rule.value.toList.count ':') : rule.matches env name = false := by
  obtain ⟨kind, value⟩ := rule
  cases kind with
  | regexp => exact absurd rfl hkind
  | full =>
    refine beq_eq_false_iff_ne.mpr ?_
    rintro rfl
    exact absurd hcolons (Nat.lt_irrefl _)
  | domain => exact decide_eq_false fun h => absurd (count_le_of_under h ':') (Nat.not_le.mpr hcolons)
  | keyword => exact decide_eq_false fun h => absurd (h.sublist.count_le ':') (Nat.not_le.mpr hcolons)

theorem endsWithDot_of_under {name domain : String} (h : Under name domain) (hdot : EndsWithDot domain) :
    EndsWithDot name := by
  rcases h with rfl | hsuffix
  · exact hdot
  · obtain ⟨front, hfront⟩ := hsuffix
    obtain ⟨cs, hcs⟩ := List.getLast?_eq_some_iff.mp hdot
    rw [EndsWithDot, ← hfront, hcs, ← List.cons_append, ← List.append_assoc, List.getLast?_concat]

theorem FollowsDocs.singleton {env : RuleEnv} (hlower : LowersLetters env.toLowercase) {defaultType : MatchType}
    {line : String} (h : FollowsDocs env defaultType [line]) (name : String) :
    ((DomainRules.lineRule env defaultType line).any fun rule => rule.matches env (normalise env name)) =
      (documentedRule env defaultType line).any fun rule => rule.matches env (normalise env name) := by
  have hname := h name
  rw [DomainRules.matches_eq_answers, DomainRules.answers_load hlower, List.any_cons, List.any_nil, Bool.or_false,
    Documented] at hname
  rw [Bool.eq_iff_iff, hname, Option.any_eq_true]
  simp only [List.mem_singleton, exists_eq_left]

/-- A name in a rule that ends with a dot is matched by the name itself only as documented. -/
theorem not_endsWithDot_of_follows {env : RuleEnv} (hlower : LowersLetters env.toLowercase) {defaultType : MatchType}
    {line : String} (h : FollowsDocs env defaultType [line]) (hline : IsRuleLine line)
    (hsplit : splitAnyCase defaultType (trim line) = DomainRules.splitLine defaultType (trim line))
    (hkind : (splitAnyCase defaultType (trim line)).1 = .full ∨ (splitAnyCase defaultType (trim line)).1 = .domain) :
    ¬EndsWithDot (trim (splitAnyCase defaultType (trim line)).2) := by
  intro hdot
  have hsame := h.singleton hlower (trim (splitAnyCase defaultType (trim line)).2)
  rw [DomainRules.lineRule, documentedRule, ← hsplit] at hsame
  generalize splitAnyCase defaultType (trim line) = split at hkind hdot hsame
  obtain ⟨kind, raw⟩ := split
  dsimp only at hkind hdot hsame
  have hvalue : trim raw ≠ "" := by
    intro hempty
    rw [hempty] at hdot
    cases hdot
  have hvalueDot : EndsWithDot (env.toLowercase (trim raw)) := (hlower.endsWithDot_iff _).mpr hdot
  have hnameDot : ¬EndsWithDot (normalise env (trim raw)) := by
    rw [normalise, hlower.endsWithDot_iff]
    exact not_endsWithDot_trimEndDots _
  rw [if_pos ⟨hline, hvalue⟩, if_pos ⟨hline, hvalue⟩, Option.any_some, Option.any_some] at hsame
  rcases hkind with rfl | rfl
  · have hdocs : Rule.matches env ⟨.full, normalise env (trim raw)⟩ (normalise env (trim raw)) = true := beq_self_eq_true _
    have hcode := hsame.trans hdocs
    rw [Rule.matches, beq_iff_eq] at hcode
    exact hnameDot (hcode ▸ hvalueDot)
  · have hdocs : Rule.matches env ⟨.domain, normalise env (trim raw)⟩ (normalise env (trim raw)) = true :=
      decide_eq_true (.inl rfl)
    have hcode := hsame.trans hdocs
    exact hnameDot (endsWithDot_of_under (of_decide_eq_true hcode) hvalueDot)

/-- A line whose keyword is not seen gives a rule with the colon of the keyword, which names with fewer colons do not match. -/
theorem not_lineRule_of_colons {env : RuleEnv} (hlower : LowersLetters env.toLowercase) {defaultType : MatchType}
    {line name : String} (hbare : DomainRules.splitLine defaultType (trim line) = (defaultType, trim line))
    (hregex : env.regex (trim (trim line)) = none)
    (hcolons : name.toList.count ':' < (trim (trim line)).toList.count ':') :
    ((DomainRules.lineRule env defaultType line).any fun rule => rule.matches env name) = false := by
  rw [DomainRules.lineRule, hbare]
  dsimp only
  split
  · rw [Option.any_some]
    cases defaultType with
    | regexp =>
      rw [Rule.matches, hregex]
      rfl
    | full => exact not_matches_of_colons nofun (by rwa [hlower.colons])
    | domain => exact not_matches_of_colons nofun (by rwa [hlower.colons])
    | keyword => exact not_matches_of_colons nofun (by rwa [hlower.colons])
  · rfl

theorem lineRule_self {env : RuleEnv} {defaultType : MatchType} {line : String} (hline : IsRuleLine line)
    (hbare : DomainRules.splitLine defaultType (trim line) = (defaultType, trim line))
    (hregex : env.regex (trim (trim line)) = some fun _ => true) (hvalue : trim (trim line) ≠ "")
    (hdot : ¬EndsWithDot (trim (trim line))) :
    ((DomainRules.lineRule env defaultType line).any fun rule =>
      rule.matches env (normalise env (trim (trim line)))) = true := by
  rw [DomainRules.lineRule, hbare]
  dsimp only
  rw [if_pos ⟨hline, hvalue⟩, Option.any_some, normalise, trimEndDots_of_not hdot]
  cases defaultType with
  | regexp =>
    rw [Rule.matches, hregex]
    rfl
  | full => exact beq_self_eq_true _
  | domain => exact decide_eq_true (.inl rfl)
  | keyword => exact decide_eq_true List.infix_rfl

/-- A documented rule with a value matches some name that has no more colons than the value. -/
theorem exists_documented_name {env : RuleEnv} (hlower : LowersLetters env.toLowercase) {defaultType : MatchType}
    {line : String} (hline : IsRuleLine line) (hvalue : trim (splitAnyCase defaultType (trim line)).2 ≠ "") :
    ∃ regex name,
      ((documentedRule { env with regex } defaultType line).any fun rule =>
        rule.matches { env with regex } (normalise env name)) = true ∧
      (∀ s, s ≠ trim (splitAnyCase defaultType (trim line)).2 → regex s = none) ∧
      (normalise env name).toList.count ':' ≤ (trim (splitAnyCase defaultType (trim line)).2).toList.count ':' := by
  simp only [documentedRule]
  generalize splitAnyCase defaultType (trim line) = split at hvalue
  obtain ⟨kind, raw⟩ := split
  simp only [if_pos (And.intro hline hvalue), Option.any_some]
  have htrimmed : (normalise env (trim raw)).toList.count ':' ≤ (trim raw).toList.count ':' := by
    rw [normalise, hlower.colons, trimEndDots, String.toList_ofList, List.count_reverse,
      count_dropWhile_of_not (by decide), List.count_reverse]
  cases kind with
  | full => exact ⟨fun _ => none, trim raw, beq_self_eq_true _, fun _ _ => rfl, htrimmed⟩
  | domain => exact ⟨fun _ => none, trim raw, decide_eq_true (.inl rfl), fun _ _ => rfl, htrimmed⟩
  | keyword =>
    have hname : normalise env ((env.toLowercase (trim raw)).push 'a') = (env.toLowercase (trim raw)).push 'a' := by
      rw [normalise, trimEndDots_of_not, hlower.pushLetter _ (hlower.idem _)]
      rw [EndsWithDot, String.toList_push, List.getLast?_concat]
      decide
    refine ⟨fun _ => none, (env.toLowercase (trim raw)).push 'a', ?_, fun _ _ => rfl, ?_⟩
    · rw [hname]
      refine decide_eq_true ?_
      rw [String.toList_push]
      exact (List.prefix_append _ _).isInfix
    · have hletter : ['a'].count ':' = 0 := rfl
      rw [hname, String.toList_push, List.count_append, hlower.colons, hletter, Nat.add_zero]
  | regexp =>
    refine ⟨fun s => if s = trim raw then some fun _ => true else none, "", ?_, fun s hs => if_neg hs, ?_⟩
    · dsimp only [Rule.matches]
      rw [if_pos rfl]
      rfl
    · rw [normalise, hlower.colons]
      exact Nat.zero_le _

/-- Where the keyword is not seen, some name is answered otherwise than documented. -/
theorem exists_not_follows {env : RuleEnv} (hlower : LowersLetters env.toLowercase) {defaultType : MatchType}
    {line : String} (hline : IsRuleLine line)
    (hbare : DomainRules.splitLine defaultType (trim line) = (defaultType, trim line)) {k : String × MatchType}
    (hk : k ∈ keywords) (hstrip : stripKeyword k.1 (trim line) = some (splitAnyCase defaultType (trim line)).2) :
    ∃ regex, ¬FollowsDocs { env with regex } defaultType [line] := by
  have hmarks : ∀ k ∈ keywords, k.1.toList.count ':' = 1 ∧ k.1.toList.count '.' = 0 := by decide
  have hcount : ∀ c, IsMark c → (trim (trim line)).toList.count c =
      k.1.toList.count c + (trim (splitAnyCase defaultType (trim line)).2).toList.count c := by
    intro c hc
    rw [hc.count_trim, hc.count_of_stripKeyword hstrip, hc.count_trim]
  have hcolons := hcount ':' (.inl rfl)
  have hdots := hcount '.' (.inr rfl)
  rw [(hmarks k hk).1] at hcolons
  rw [(hmarks k hk).2, Nat.zero_add] at hdots
  by_cases hvalue : trim (splitAnyCase defaultType (trim line)).2 = ""
  · rw [hvalue] at hdots hcolons
    refine ⟨fun _ => some fun _ => true, fun hfollows => ?_⟩
    have hne : trim (trim line) ≠ "" := by
      intro hempty
      rw [hempty] at hcolons
      exact absurd hcolons (by decide)
    have hnot : ¬EndsWithDot (trim (trim line)) := fun hdot =>
      List.count_eq_zero.mp hdots (List.mem_of_getLast? hdot)
    have hsame := @FollowsDocs.singleton { env with regex := fun _ => some fun _ => true } hlower _ _ hfollows
      (trim (trim line))
    have hdocs : documentedRule { env with regex := fun _ => some fun _ => true } defaultType line = none :=
      if_neg fun h => h.2 hvalue
    rw [lineRule_self hline hbare rfl hne hnot, hdocs] at hsame
    cases hsame
  · obtain ⟨regex, name, hdocs, hregex, hname⟩ := exists_documented_name hlower hline hvalue
    refine ⟨regex, fun hfollows => ?_⟩
    have hsame := @FollowsDocs.singleton { env with regex } hlower _ _ hfollows name
    have hother : trim (trim line) ≠ trim (splitAnyCase defaultType (trim line)).2 := by
      intro heq
      rw [heq] at hcolons
      omega
    have hfewer : (normalise env name).toList.count ':' < (trim (trim line)).toList.count ':' := by omega
    have hcode := @not_lineRule_of_colons { env with regex } hlower defaultType line (normalise env name) hbare
      (hregex _ hother) hfewer
    cases hdocs.symm.trans (hsame.symm.trans hcode)

theorem wellWritten_of_follows {env : RuleEnv} (hlower : LowersLetters env.toLowercase) {defaultType : MatchType}
    {line : String} (h : ∀ regex, FollowsDocs { env with regex } defaultType [line]) : WellWritten defaultType line := by
  intro hline
  rcases split_cases defaultType (trim line) with hsplit | ⟨hbare, k, hk, hstrip⟩
  · refine ⟨hsplit, fun hkind => ?_⟩
    rw [← hsplit] at hkind ⊢
    exact not_endsWithDot_of_follows hlower (h env.regex) hline hsplit hkind
  · obtain ⟨regex, hnot⟩ := exists_not_follows hlower hline hbare hk hstrip
    exact absurd (h regex) hnot

/-! ### Lists of lines -/

/-- The parsers for ASCII text, without addresses. -/
def RuleEnv.ascii : RuleEnv := ⟨asciiLowercase, fun _ => none, fun _ => none, fun _ => none⟩

namespace DomainRules

section

variable {env : RuleEnv} (hlower : LowersLetters env.toLowercase) (defaultType : MatchType)

include hlower

theorem matches_load_perm {lines lines' : List String} (h : lines.Perm lines') (name : String) :
    (load env defaultType lines).matches env name = (load env defaultType lines').matches env name := by
  rw [matches_eq_answers, matches_eq_answers, answers_load hlower, answers_load hlower, Bool.eq_iff_iff,
    List.any_eq_true, List.any_eq_true]
  exact exists_congr fun line => and_congr_left' h.mem_iff

theorem matches_merge_load (lines lines' : List String) (name : String) :
    ((load env defaultType lines).merge (load env defaultType lines')).matches env name =
      (load env defaultType (lines ++ lines')).matches env name := by
  rw [matches_eq_answers, matches_eq_answers, answers_merge, answers_load hlower, answers_load hlower,
    answers_load hlower, List.any_append]

/-- The lists of some lines answer as documented, with every regular expression engine, exactly if the lines are well written. In any case the order of the lines makes no difference, and merging two lists is loading both. -/
theorem followsDocs_iff :
    (∀ allowed : Set String,
      (∀ regex lines, (∀ line ∈ lines, line ∈ allowed) → FollowsDocs { env with regex } defaultType lines) ↔
        ∀ line ∈ allowed, WellWritten defaultType line) ∧
    (∀ lines lines' name, lines.Perm lines' →
      (load env defaultType lines).matches env name = (load env defaultType lines').matches env name) ∧
    ∀ lines lines' name, ((load env defaultType lines).merge (load env defaultType lines')).matches env name =
      (load env defaultType (lines ++ lines')).matches env name := by
  refine ⟨fun allowed => ⟨?_, ?_⟩, fun lines lines' name h => matches_load_perm hlower defaultType h name,
    matches_merge_load hlower defaultType⟩
  · intro h line hline
    refine wellWritten_of_follows hlower fun regex => h regex [line] ?_
    intro other hother
    rwa [List.mem_singleton.mp hother]
  · intro h regex lines hlines
    exact @followsDocs_of_wellWritten { env with regex } hlower defaultType lines fun line hline =>
      h line (hlines line hline)

end

theorem followsDocs_example : FollowsDocs .ascii .domain ["Example.com"] := by
  have hwritten : ∀ line ∈ ({"Example.com"} : Set String), WellWritten .domain line := by
    rintro line rfl
    decide +kernel
  exact ((@followsDocs_iff .ascii lowersLetters_asciiLowercase .domain).1 {"Example.com"}).mpr hwritten _ _
    fun line hline => List.mem_singleton.mp hline

/-- The documentation has `example.com.` match `example.com`. -/
theorem not_followsDocs_dot : ¬FollowsDocs .ascii .domain ["example.com."] := by
  have hcode : (load .ascii .domain ["example.com."]).matches .ascii "example.com" = false := by decide +kernel
  have hdocs : documentedRule .ascii .domain "example.com." = some ⟨.domain, "example.com"⟩ := by decide +kernel
  have hmatch : Rule.matches .ascii ⟨.domain, "example.com"⟩ (normalise .ascii "example.com") = true := by
    decide +kernel
  intro h
  have htrue := (h "example.com").mpr ⟨_, List.mem_singleton_self _, _, hdocs, hmatch⟩
  cases hcode.symm.trans htrue

end DomainRules

end Lazydns
