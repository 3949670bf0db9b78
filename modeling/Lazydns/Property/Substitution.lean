import Lazydns.Config.TextRules
import Lazydns.Property.Includes

/-!
# Placeholders and directives, all at once

The matches are found in the content as it is, but each is replaced wherever its text is found in what the earlier ones have left: in their values, and at the start of a longer directive. If the text is found at its own placeholders only, each placeholder is replaced once by its value and all else is as it was.
-/

namespace Lazydns

open Relation (ReflTransGen)
open Template

variable {File γ : Type}

/-! ### At once and in turn -/

/-- The text with each match replaced by what it comes to; the first error is returned. -/
def fillOnce (value : γ → Option (Except LoadError String)) : List (Char ⊕ γ) → Option (Except LoadError String)
  | [] => some (.ok "")
  | .inl c :: ps => (fillOnce value ps).map (Except.map (String.singleton c ++ ·))
  | .inr g :: ps =>
    match value g with
    | some (.ok text) => (fillOnce value ps).map (Except.map (text ++ ·))
    | failed => failed

/-- The loop of both functions, with what a match comes to. -/
def replaceInTurn (value : γ → Option (Except LoadError String)) (fullMatch : γ → String) :
    List γ → String → Option (Except LoadError String)
  | [], result => some (.ok result)
  | g :: gs, result =>
    match value g with
    | some (.ok text) => replaceInTurn value fullMatch gs (replace result (fullMatch g) text)
    | failed => failed

def okText (value : γ → Option (Except LoadError String)) (g : γ) : String :=
  match value g with
  | some (.ok text) => text
  | _ => ""

/-- Unless there is an error, whenever a match is replaced its text is found at the matches that have it and nowhere else. -/
def Apart (value : γ → Option (Except LoadError String)) (fullMatch : γ → String) (ps : List (Char ⊕ γ)) : Prop :=
  (∀ g ∈ holes ps, value g = some (.ok (okText value g))) →
    FoundInTurn (fun g => (fullMatch g).toList) (fun g => (okText value g).toList) ps

section

variable {value : γ → Option (Except LoadError String)} {fullMatch : γ → String} {ps : List (Char ⊕ γ)}

theorem okText_or_failed (value : γ → Option (Except LoadError String)) (fullMatch : γ → String) (ps : List (Char ⊕ γ)) :
    (∀ g ∈ holes ps, value g = some (.ok (okText value g))) ∨
      ∃ r, (∀ f : String → String, r.map (Except.map f) = r) ∧ fillOnce value ps = r ∧
        ∀ result, replaceInTurn value fullMatch (holes ps) result = r := by
  induction ps with
  | nil => exact .inl nofun
  | cons p ps ih =>
    cases p with
    | inl c =>
      rcases ih with hok | ⟨r, hr, hfill, hturn⟩
      · exact .inl hok
      · refine .inr ⟨r, hr, ?_, hturn⟩
        rw [fillOnce, hfill, hr]
    | inr g =>
      cases hg : value g with
      | none =>
        refine .inr ⟨none, fun _ => rfl, ?_, fun result => ?_⟩
        · rw [fillOnce, hg]
        · change replaceInTurn value fullMatch (g :: holes ps) result = none
          rw [replaceInTurn, hg]
      | some r =>
        cases r with
        | error e =>
          refine .inr ⟨some (.error e), fun _ => rfl, ?_, fun result => ?_⟩
          · rw [fillOnce, hg]
          · change replaceInTurn value fullMatch (g :: holes ps) result = some (.error e)
            rw [replaceInTurn, hg]
        | ok text =>
          rcases ih with hok | ⟨r, hr, hfill, hturn⟩
          · refine .inl (List.forall_mem_cons.mpr ⟨?_, hok⟩)
            rw [okText, hg]
          · refine .inr ⟨r, hr, ?_, fun result => ?_⟩
            · rw [fillOnce, hg, hfill]
              exact hr _
            · change replaceInTurn value fullMatch (g :: holes ps) result = r
              rw [replaceInTurn, hg]
              exact hturn _

theorem fillOnce_eq {text : γ → String} (h : ∀ g ∈ holes ps, value g = some (.ok (text g))) :
    fillOnce value ps = some (.ok (String.ofList (fill (fun g => (text g).toList) ps))) := by
  induction ps with
  | nil => rfl
  | cons p ps ih =>
    cases p with
    | inl c =>
      rw [fillOnce, ih h, fill_letter, String.ofList_cons]
      rfl
    | inr g =>
      rw [fillOnce, h g List.mem_cons_self, ih fun g' hg' => h g' (List.mem_cons_of_mem _ hg'), fill_match,
        String.ofList_append, String.ofList_toList]
      rfl

theorem replaceInTurn_eq {gs : List γ} {text : γ → String} (h : ∀ g ∈ gs, value g = some (.ok (text g)))
    (result : String) :
    replaceInTurn value fullMatch gs result =
      some (.ok (gs.foldl (fun result g => replace result (fullMatch g) (text g)) result)) := by
  induction gs generalizing result with
  | nil => rfl
  | cons g gs ih =>
    rw [replaceInTurn, h g List.mem_cons_self]
    exact ih (fun g' hg' => h g' (List.mem_cons_of_mem _ hg')) _

theorem replaceInTurn_eq_fillOnce {matchAt : Pattern Char γ} (hlawful : Lawful matchAt fun g => (fullMatch g).toList)
    {content : String} (h : Apart value fullMatch (pieces matchAt content.toList)) :
    replaceInTurn value fullMatch (capturesIter matchAt content) content =
      fillOnce value (pieces matchAt content.toList) := by
  rw [capturesIter_eq]
  have hstrings : ∀ (text : γ → String) (gs : List γ) (result : String),
      (gs.foldl (fun result g => replace result (fullMatch g) (text g)) result).toList =
        gs.foldl (fun result g => replaceAll (fullMatch g).toList (text g).toList result) result.toList := by
    intro text gs
    induction gs with
    | nil => exact fun _ => rfl
    | cons g gs ih =>
      intro result
      rw [List.foldl_cons, ih, toList_replace]
      rfl
  rcases okText_or_failed value fullMatch (pieces matchAt content.toList) with hok | ⟨r, -, hfill, hturn⟩
  · rw [replaceInTurn_eq hok, fillOnce_eq hok, ← foldl_replaceAll hlawful (h hok), ← hstrings, String.ofList_toList]
  · rw [hfill, hturn]

end

/-! ### Placeholders -/

section

variable {var : String → Option String} {content : String}

def captureValue (var : String → Option String) (cap : EnvCapture) : Except LoadError String :=
  match (var cap.varName).or cap.defaultValue with
  | none => .error (.missingVar cap.varName)
  | some value => .ok value

/-- The content with its placeholders replaced at once. -/
def substituteOnce (var : String → Option String) (content : String) : Option (Except LoadError String) :=
  fillOnce (fun cap => some (captureValue var cap)) (pieces matchEnv content.toList)

def PlaceholdersApart (var : String → Option String) (content : String) : Prop :=
  Apart (fun cap => some (captureValue var cap)) EnvCapture.fullMatch (pieces matchEnv content.toList)

theorem substituteCaptures_eq (caps : List EnvCapture) (result : String) :
    some (substituteCaptures var caps result) =
      replaceInTurn (fun cap => some (captureValue var cap)) EnvCapture.fullMatch caps result := by
  induction caps generalizing result with
  | nil => rfl
  | cons cap caps ih =>
    rw [substituteCaptures, replaceInTurn, captureValue]
    cases (var cap.varName).or cap.defaultValue with
    | none => rfl
    | some value => exact ih _

theorem substituteEnvVars_eq (h : PlaceholdersApart var content) :
    some (substituteEnvVars var content) = substituteOnce var content := by
  rw [substituteEnvVars, substituteCaptures_eq]
  exact replaceInTurn_eq_fillOnce lawful_matchEnv h

end

/-! ### Directives -/

theorem replaceIncludes_eq {included : String → Option (Except LoadError String)}
    {value : IncludeCapture → Option (Except LoadError String)} {caps : List IncludeCapture}
    (h : ∀ cap ∈ caps, included cap.includePath = value cap) (result : String) :
    replaceIncludes included caps result = replaceInTurn value IncludeCapture.fullMatch caps result := by
  induction caps generalizing result with
  | nil => rfl
  | cons cap caps ih =>
    rw [replaceIncludes, replaceInTurn, h cap List.mem_cons_self]
    cases value cap with
    | none => rfl
    | some r =>
      cases r with
      | error e => rfl
      | ok contents => exact ih (fun cap hcap => h cap (List.mem_cons_of_mem _ hcap)) _

namespace FileSystem

variable (fs : FileSystem File)

/-- What the directives of an included file should be looked for in. -/
def textOnce (path : String) : Option (Except LoadError String) :=
  match fs.readToString path with
  | .error e => some (.error (.readIncluded path e))
  | .ok contents => substituteOnce fs.var contents

/-- The content with its directives replaced at once, each by what its file comes to in the same way. -/
def expand : Nat → String → Option String → Option (Except LoadError String)
  | 0, _, _ => none
  | fuel + 1, content, baseDir =>
    fillOnce (fun cap =>
      match fs.textOnce (resolvePath baseDir cap.includePath) with
      | some (.ok text) => expand fuel text (Path.parent (resolvePath baseDir cap.includePath))
      | failed => failed)
      (pieces matchInclude content.toList)

/-- What a directive should come to. -/
def includedOnce (fuel : Nat) (baseDir : Option String) (cap : IncludeCapture) : Option (Except LoadError String) :=
  match fs.textOnce (resolvePath baseDir cap.includePath) with
  | some (.ok text) => fs.expand fuel text (Path.parent (resolvePath baseDir cap.includePath))
  | failed => failed

theorem expand_succ (fuel : Nat) (content : String) (baseDir : Option String) :
    fs.expand (fuel + 1) content baseDir = fillOnce (fs.includedOnce fuel baseDir) (pieces matchInclude content.toList) := rfl

/-- A directive of a content leads to the content of its file, each with the directory that it is in. -/
def Leads (x y : String × Option String) : Prop :=
  ∃ cap ∈ capturesIter matchInclude x.1, fs.textOnce (resolvePath x.2 cap.includePath) = some (.ok y.1) ∧
    y.2 = Path.parent (resolvePath x.2 cap.includePath)

/-- The directives of a content are apart, and so are the placeholders of the files that they include. -/
structure Clear (x : String × Option String) : Prop where
  directives : ∀ fuel, Apart (fs.includedOnce fuel x.2) IncludeCapture.fullMatch (pieces matchInclude x.1.toList)
  placeholders : ∀ cap ∈ capturesIter matchInclude x.1, ∀ contents,
    fs.readToString (resolvePath x.2 cap.includePath) = .ok contents → PlaceholdersApart fs.var contents

variable {fs}

theorem processIncludes_eq {content : String} {baseDir : Option String}
    (h : ∀ x, ReflTransGen fs.Leads (content, baseDir) x → fs.Clear x) (fuel : Nat) (visited : List File) :
    fs.processIncludes fuel content baseDir visited = fs.expand fuel content baseDir := by
  induction fuel generalizing content baseDir with
  | zero => rfl
  | succ fuel ih =>
    have hclear := h _ .refl
    rw [processIncludes_succ, expand_succ, ← replaceInTurn_eq_fillOnce lawful_matchInclude (hclear.directives fuel)]
    refine replaceIncludes_eq (fun cap hcap => ?_) content
    have htext : some (fs.text (resolvePath baseDir cap.includePath)) = fs.textOnce (resolvePath baseDir cap.includePath) := by
      rw [text, textOnce]
      cases hread : fs.readToString (resolvePath baseDir cap.includePath) with
      | error e => rfl
      | ok contents => exact substituteEnvVars_eq (hclear.placeholders cap hcap contents hread)
    rw [included, includedOnce, ← htext]
    cases htexts : fs.text (resolvePath baseDir cap.includePath) with
    | error e => rfl
    | ok text =>
      refine ih fun x hx => h x (.head ⟨cap, hcap, ?_, rfl⟩ hx)
      rw [← htext, htexts]

/-- If the placeholders and the directives are apart, all of them are replaced at once. -/
theorem replacedOnce (fs : FileSystem File) {content text : String} {baseDir : Option String}
    (hcontent : PlaceholdersApart fs.var content) (htext : ∀ x, ReflTransGen fs.Leads (text, baseDir) x → fs.Clear x) :
    some (substituteEnvVars fs.var content) = substituteOnce fs.var content ∧
      ∀ fuel visited, fs.processIncludes fuel text baseDir visited = fs.expand fuel text baseDir :=
  ⟨substituteEnvVars_eq hcontent, processIncludes_eq htext⟩

/-! ### Examples -/

def hostsFiles : FileSystem Bool where
  canonicalize path := if path = "hosts" then .ok false else if path = "hosts.local" then .ok true else .error "not found"
  contents file := .ok (if file then "local" else "${ZONE:-example}")
  var name := if name = "NAME" then some "${ZONE:-lan}" else none

theorem replacedOnce_hosts :
    some (substituteEnvVars hostsFiles.var "${ZONE:-lan} ${NAME}") = substituteOnce hostsFiles.var "${ZONE:-lan} ${NAME}" ∧
      ∀ fuel visited, hostsFiles.processIncludes fuel "!include hosts" (some "") visited =
        hostsFiles.expand fuel "!include hosts" (some "") := by
  have hdirective : capturesIter matchInclude "!include hosts" = [⟨"!include hosts", "hosts"⟩] := by decide
  have hnone : capturesIter matchInclude "example" = [] := by decide
  have htext : hostsFiles.textOnce (resolvePath (some "") "hosts") = some (.ok "example") := by decide +kernel
  refine replacedOnce hostsFiles (fun _ => by decide +kernel) fun x hx => ?_
  have hreach : x = ("!include hosts", some "") ∨ x.1 = "example" := by
    induction hx with
    | refl => exact .inl rfl
    | tail _ hstep ih =>
      obtain ⟨cap, hcap, hcontent, -⟩ := hstep
      rcases ih with rfl | hexample
      · rw [hdirective, List.mem_singleton] at hcap
        rw [hcap, htext] at hcontent
        exact .inr (Except.ok.inj (Option.some.inj hcontent)).symm
      · rw [hexample, hnone] at hcap
        cases hcap
  rcases hreach with rfl | hexample
  · refine ⟨fun fuel _ => ?_, fun cap hcap contents hread => ?_⟩
    · rw [FoundInTurn, ← capturesIter_eq, hdirective]
      refine ⟨.inr ?_, trivial⟩
      rw [filled_nil]
      decide +kernel
    · rw [hdirective, List.mem_singleton] at hcap
      have hcontents : hostsFiles.readToString (resolvePath (some "") "hosts") = .ok "${ZONE:-example}" := by decide +kernel
      rw [hcap, hcontents] at hread
      cases hread
      exact fun _ => by decide +kernel
  · refine ⟨fun fuel _ => ?_, fun cap hcap => ?_⟩
    · rw [FoundInTurn, ← capturesIter_eq, hexample, hnone]
      trivial
    · rw [hexample, hnone] at hcap
      cases hcap

/-- A placeholder in the value of another one is replaced, and so is a directive at the start of a longer one. -/
theorem not_replacedOnce_nested :
    some (substituteEnvVars hostsFiles.var "${NAME} ${ZONE:-lan}") ≠ substituteOnce hostsFiles.var "${NAME} ${ZONE:-lan}" ∧
      hostsFiles.processIncludes 2 "!include hosts !include hosts.local" (some "") [] ≠
        hostsFiles.expand 2 "!include hosts !include hosts.local" (some "") := by
  constructor <;> decide +kernel

end FileSystem

end Lazydns
