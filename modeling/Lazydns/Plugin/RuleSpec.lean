import Lazydns.Plugin.Dataset
import Lazydns.Plugin.Names

/-!
# What a rule line means

The documented reading of a rule file: each line is a rule or nothing, and a name matches the file if it matches the rule of some line. Names are compared without trailing dots and in lower case, those of `full:` and `domain:` rules as well as the one asked for, and the keyword in front of a rule may be in any case.
-/

namespace Lazydns

/-! ### Names and their parents -/

theorem intercalate_append {sep : List Char} {ls ls' : List (List Char)} (hls : ls ≠ []) (hls' : ls' ≠ []) :
    sep.intercalate (ls ++ ls') = sep.intercalate ls ++ sep ++ sep.intercalate ls' := by
  induction ls with
  | nil => exact absurd rfl hls
  | cons l ls ih =>
    by_cases hnil : ls = []
    · subst hnil
      rw [List.singleton_append, List.intercalate_cons_of_ne_nil hls', List.intercalate_singleton]
    · rw [List.cons_append, List.intercalate_cons_of_ne_nil (List.append_ne_nil_of_left_ne_nil hnil _), ih hnil,
        List.intercalate_cons_of_ne_nil hnil]
      simp only [List.append_assoc]

/-- The last labels of a name: the name itself, or what follows one of its dots. -/
theorem exists_labels_iff {c d : List Char} :
    (∃ labels, labels ≠ [] ∧ labels <:+ d.splitOn '.' ∧ ['.'].intercalate labels = c) ↔ c = d ∨ '.' :: c <:+ d := by
  constructor
  · rintro ⟨labels, hne, ⟨front, hfront⟩, rfl⟩
    have hjoin : ['.'].intercalate (d.splitOn '.') = d := List.intercalate_splitOn '.'
    rw [← hfront] at hjoin
    by_cases hnil : front = []
    · subst hnil
      exact .inl hjoin
    · rw [intercalate_append hnil hne, List.append_assoc] at hjoin
      exact .inr ⟨_, hjoin⟩
  · rintro (rfl | ⟨front, rfl⟩)
    · exact ⟨_, List.splitOn_ne_nil _ _, List.suffix_rfl, List.intercalate_splitOn _⟩
    · refine ⟨c.splitOn '.', List.splitOn_ne_nil _ _, ?_, List.intercalate_splitOn _⟩
      rw [List.splitOn_append_cons_self]
      exact List.suffix_append _ _

/-- A name is under a domain if it is the domain or ends with a dot and the domain. -/
def Under (name domain : String) : Prop := domain = name ∨ '.' :: domain.toList <:+ name.toList

instance (name domain : String) : Decidable (Under name domain) := inferInstanceAs (Decidable (_ ∨ _))

theorem DomainRules.mem_candidates {name domain : String} : domain ∈ candidates name ↔ Under name domain := by
  have hiff := exists_labels_iff (c := domain.toList) (d := name.toList)
  rw [String.toList_inj] at hiff
  rw [Under, ← hiff, candidates, List.mem_map]
  constructor
  · rintro ⟨labels, hlabels, rfl⟩
    obtain ⟨htails, hne⟩ := List.mem_filter.mp hlabels
    exact ⟨labels, of_decide_eq_true hne, (List.mem_tails _ _).mp htails, String.toList_ofList.symm⟩
  · rintro ⟨labels, hne, hsuffix, heq⟩
    refine ⟨labels, List.mem_filter.mpr ⟨(List.mem_tails _ _).mpr hsuffix, decide_eq_true hne⟩, ?_⟩
    rw [heq, String.ofList_toList]

/-! ### Rules -/

structure Rule where
  matchType : MatchType
  value : String
  deriving DecidableEq, Repr

namespace Rule

variable (env : RuleEnv)

/-- Whether a rule matches a name that has been normalised. -/
def «matches» (rule : Rule) (name : String) : Bool :=
  match rule.matchType with
  | .full => rule.value == name
  | .domain => decide (Under name rule.value)
  | .keyword => rule.value.toList <:+: name.toList
  | .regexp => (env.regex rule.value).any fun regex => regex name

end Rule

/-- A name without trailing dots and in lower case. -/
def normalise (env : RuleEnv) (name : String) : String := env.toLowercase (trimEndDots name)

/-- The rest of a line after a keyword in any case. -/
def stripKeyword (keyword line : String) : Option String :=
  if (line.toList.take keyword.toList.length).map Char.toLower = keyword.toList then
    some (String.ofList (line.toList.drop keyword.toList.length))
  else none

/-- The documented type and value of a line: as `split_line`, with the keywords in any case. -/
def splitAnyCase (defaultType : MatchType) (line : String) : MatchType × String :=
  match stripKeyword "full:" line with
  | some rest => (.full, rest)
  | none => match stripKeyword "domain:" line with
    | some rest => (.domain, rest)
    | none => match stripKeyword "keyword:" line with
      | some rest => (.keyword, rest)
      | none => match stripKeyword "regexp:" line with
        | some rest => (.regexp, rest)
        | none => (defaultType, line)

/-- Neither empty nor a comment. -/
def IsRuleLine (line : String) : Prop := ¬(trim line = "" ∨ (trim line).toList.head? = some '#')

instance (line : String) : Decidable (IsRuleLine line) := inferInstanceAs (Decidable (¬_))

/-- The documented rule of a line. -/
def documentedRule (env : RuleEnv) (defaultType : MatchType) (line : String) : Option Rule :=
  let split := splitAnyCase defaultType (trim line)
  let value := trim split.2
  if IsRuleLine line ∧ value ≠ "" then
    some ⟨split.1, match split.1 with
      | .full | .domain => normalise env value
      | .keyword => env.toLowercase value
      | .regexp => value⟩
  else none

/-- Some line has a rule that matches the name. -/
def Documented (env : RuleEnv) (defaultType : MatchType) (lines : List String) (name : String) : Prop :=
  ∃ line ∈ lines, ∃ rule, documentedRule env defaultType line = some rule ∧ rule.matches env (normalise env name) = true

end Lazydns
