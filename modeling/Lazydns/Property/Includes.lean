import Lazydns.Config.Loader
import Lazydns.Lib.Walks

/-!
# Include directives

Loading ends with the same result however deep it may go, or does not end. It ends if no file includes itself, directly or through others, since the includes are then at most as deep as there are files. The error for circular includes is never returned: the set of visited files is empty when the only file is looked up in it. So the loader keeps its promise exactly where there is no cycle.
-/

namespace Lazydns

open Relation (ReflTransGen TransGen)

variable {File C : Type}

/-- Apart from the errors of the parser, the text tells the error for circular includes. -/
theorem LoadError.toError_eq_circular {e : LoadError} (hyaml : ∀ e', e ≠ .yaml e') {path : String} :
    e.toError = .config ("Circular include detected: " ++ path) ↔ e = .circularInclude path := by
  have hne : ∀ (c : Char) (a s : String), c ≠ 'C' → a.toList.head? = some c →
      Error.config (a ++ s) ≠ .config ("Circular include detected: " ++ path) := by
    intro c a s hc ha h
    have hhead := congrArg (fun s => s.toList.head?) (Error.config.inj h)
    rw [String.toList_append, String.toList_append, List.head?_append, List.head?_append, ha] at hhead
    exact hc (Option.some.inj hhead)
  cases e with
  | circularInclude path' =>
    rw [toError, Error.config.injEq, ← String.toList_inj, String.toList_append, String.toList_append,
      List.append_cancel_left_eq, String.toList_inj, circularInclude.injEq]
  | yaml e' => exact absurd rfl (hyaml e')
  | resolvePath reason => exact iff_of_false (hne 'F' _ _ (by decide) rfl) nofun
  | readConfig reason => exact iff_of_false (hne 'F' _ _ (by decide) rfl) nofun
  | missingVar name =>
    rw [toError, String.append_assoc]
    exact iff_of_false (hne 'E' _ _ (by decide) rfl) nofun
  | readIncluded path' reason =>
    rw [toError, String.append_assoc, String.append_assoc]
    exact iff_of_false (hne 'F' _ _ (by decide) rfl) nofun

/-! ### One file -/

theorem substituteCaptures_error {var : String → Option String} {caps : List EnvCapture} {result : String} {e : LoadError}
    (h : substituteCaptures var caps result = .error e) : ∃ name, e = .missingVar name := by
  induction caps generalizing result with
  | nil => cases h
  | cons cap caps ih =>
    rw [substituteCaptures] at h
    cases hvalue : (var cap.varName).or cap.defaultValue with
    | none =>
      rw [hvalue] at h
      exact ⟨cap.varName, (Except.error.inj h).symm⟩
    | some value =>
      rw [hvalue] at h
      exact ih h

section

variable {included included' : String → Option (Except LoadError String)} {caps : List IncludeCapture} {result : String}

theorem isSome_replaceIncludes (h : ∀ cap ∈ caps, (included cap.includePath).isSome) :
    (replaceIncludes included caps result).isSome := by
  induction caps generalizing result with
  | nil => rfl
  | cons cap caps ih =>
    obtain ⟨r, hr⟩ := Option.isSome_iff_exists.mp (h cap List.mem_cons_self)
    rw [replaceIncludes, hr]
    cases r with
    | error e => rfl
    | ok contents => exact ih fun cap hcap => h cap (List.mem_cons_of_mem _ hcap)

theorem replaceIncludes_error {e : LoadError} (h : replaceIncludes included caps result = some (.error e)) :
    ∃ path, included path = some (.error e) := by
  induction caps generalizing result with
  | nil => cases h
  | cons cap caps ih =>
    rw [replaceIncludes] at h
    cases hr : included cap.includePath with
    | none =>
      rw [hr] at h
      cases h
    | some r =>
      rw [hr] at h
      cases r with
      | error e' =>
        cases h
        exact ⟨_, hr⟩
      | ok contents => exact ih h

theorem replaceIncludes_mono (hmono : ∀ path r, included path = some r → included' path = some r)
    {r : Except LoadError String} (h : replaceIncludes included caps result = some r) :
    replaceIncludes included' caps result = some r := by
  induction caps generalizing result with
  | nil => exact h
  | cons cap caps ih =>
    rw [replaceIncludes] at h ⊢
    cases hr : included cap.includePath with
    | none =>
      rw [hr] at h
      cases h
    | some r' =>
      rw [hr] at h
      rw [hmono _ _ hr]
      cases r' with
      | error e => exact h
      | ok contents => exact ih h

end

namespace FileSystem

variable (fs : FileSystem File)

/-- What the directives of a file are looked for in. -/
def text (path : String) : Except LoadError String :=
  match fs.readToString path with
  | .error e => .error (.readIncluded path e)
  | .ok contents => substituteEnvVars fs.var contents

/-- What an included file comes to. -/
def included (fuel : Nat) (visited : List File) (path : String) : Option (Except LoadError String) :=
  match fs.text path with
  | .error e => some (.error e)
  | .ok contents => fs.processIncludes fuel contents (Path.parent path) visited

theorem processIncludes_succ (fuel : Nat) (content : String) (baseDir : Option String) (visited : List File) :
    fs.processIncludes (fuel + 1) content baseDir visited =
      replaceIncludes (fun path => fs.included fuel visited (resolvePath baseDir path))
        (capturesIter matchInclude content) content := by
  rw [processIncludes]
  congr 1
  funext path
  rw [included, text]
  dsimp only
  cases fs.readToString (resolvePath baseDir path) with
  | error e => rfl
  | ok contents => rfl

variable {fs} {visited : List File}

theorem text_error {path : String} {e : LoadError} (h : fs.text path = .error e) :
    (∃ reason, e = .readIncluded path reason) ∨ ∃ name, e = .missingVar name := by
  rw [text] at h
  cases hread : fs.readToString path with
  | error reason =>
    rw [hread] at h
    exact .inl ⟨reason, (Except.error.inj h).symm⟩
  | ok contents =>
    rw [hread] at h
    exact .inr (substituteCaptures_error h)

theorem processIncludes_ne_circular {fuel : Nat} {content : String} {baseDir : Option String} (path : String) :
    fs.processIncludes fuel content baseDir visited ≠ some (.error (.circularInclude path)) := by
  induction fuel generalizing content baseDir with
  | zero => exact nofun
  | succ fuel ih =>
    intro h
    rw [processIncludes_succ] at h
    obtain ⟨directive, hdirective⟩ := replaceIncludes_error h
    rw [included] at hdirective
    cases htext : fs.text (resolvePath baseDir directive) with
    | error e =>
      rw [htext] at hdirective
      cases hdirective
      rcases text_error htext with ⟨_, heq⟩ | ⟨_, heq⟩ <;> cases heq
    | ok contents =>
      rw [htext] at hdirective
      exact ih hdirective

theorem processIncludes_mono {fuel : Nat} {content : String} {baseDir : Option String} {r : Except LoadError String}
    (h : fs.processIncludes fuel content baseDir visited = some r) :
    fs.processIncludes (fuel + 1) content baseDir visited = some r := by
  induction fuel generalizing content baseDir r with
  | zero => cases h
  | succ fuel ih =>
    rw [processIncludes_succ] at h ⊢
    refine replaceIncludes_mono ?_ h
    intro path r hr
    rw [included] at hr ⊢
    cases htext : fs.text (resolvePath baseDir path) with
    | error e =>
      rw [htext] at hr
      exact hr
    | ok contents =>
      rw [htext] at hr
      exact ih hr

/-! ### The graph of includes -/

/-- A directive of the first file leads to the second. -/
def Includes (fs : FileSystem File) (p q : String) : Prop :=
  ∃ text, fs.text p = .ok text ∧ ∃ cap ∈ capturesIter matchInclude text, resolvePath (Path.parent p) cap.includePath = q

/-- The file that a path leads to. -/
def file (fs : FileSystem File) (path : String) : Option File := (fs.canonicalize path).toOption

/-- A chain of directives from the root leads from a file back to it. -/
def CycleReachable (fs : FileSystem File) (root : String) : Prop := Walks.Returns fs.Includes fs.file root

/-- Without a cycle, the number of files is enough for the includes of the root. -/
theorem isSome_processIncludes [Finite File] {root text : String} (hcycle : ¬fs.CycleReachable root)
    (htext : fs.text root = .ok text) :
    (fs.processIncludes (Nat.card (Option File)) text (Path.parent root) visited).isSome := by
  refine Walks.enough_labels hcycle (motive := fun fuel path => ∀ text, fs.text path = .ok text →
    (fs.processIncludes fuel text (Path.parent path) visited).isSome) ?_ text htext
  intro fuel p ih text htext
  rw [processIncludes_succ]
  refine isSome_replaceIncludes ?_
  intro cap hcap
  rw [included]
  cases hq : fs.text (resolvePath (Path.parent p) cap.includePath) with
  | error e => rfl
  | ok text' => exact ih _ ⟨text, htext, cap, hcap, rfl⟩ text' hq

/-! ### Loading -/

variable [DecidableEq File] (fs) (loadFromYaml : String → Except Error C) (root : String)

/-- Loading ends, however long it takes. -/
def Loads : Prop := ∃ fuel, (fs.loadFromFile loadFromYaml fuel root).isSome

/-- Loading ends with the error for circular includes. -/
def ReportsCircular : Prop :=
  ∃ fuel path, fs.loadFromFile loadFromYaml fuel root = some (.error (.circularInclude path))

/-- Loading ends, with the error for circular includes exactly if there are any. -/
def HandlesIncludes : Prop :=
  fs.Loads loadFromYaml root ∧ (fs.ReportsCircular loadFromYaml root ↔ fs.CycleReachable root)

variable {fs loadFromYaml root}

/-- What is left to do with the text of the root. -/
def finish (loadFromYaml : String → Except Error C) : Except LoadError String → Except LoadError C
  | .error e => .error e
  | .ok contents =>
    match loadFromYaml contents with
    | .error e => .error (.yaml e)
    | .ok config => .ok config

/-- Loading fails on the root for another reason than includes, or comes down to its includes. -/
theorem loadFromFile_cases (fs : FileSystem File) (loadFromYaml : String → Except Error C) (root : String) :
    (∃ e, (∀ path, e ≠ .circularInclude path) ∧ ∀ fuel, fs.loadFromFile loadFromYaml fuel root = some (.error e)) ∨
      ∃ text visited, fs.text root = .ok text ∧ ∀ fuel, fs.loadFromFile loadFromYaml fuel root =
        (fs.processIncludes fuel text (Path.parent root) visited).map (finish loadFromYaml) := by
  cases hfile : fs.canonicalize root with
  | error reason =>
    refine .inl ⟨.resolvePath reason, nofun, ?_⟩
    intro fuel
    rw [loadFromFile, loadFromFileInternal, hfile]
  | ok file =>
    cases hread : fs.readToString root with
    | error reason =>
      refine .inl ⟨.readConfig reason, nofun, ?_⟩
      intro fuel
      rw [loadFromFile, loadFromFileInternal, hfile]
      dsimp only
      rw [if_neg List.not_mem_nil, hread]
    | ok contents =>
      cases htext : substituteEnvVars fs.var contents with
      | error e =>
        obtain ⟨name, rfl⟩ := substituteCaptures_error htext
        refine .inl ⟨.missingVar name, nofun, ?_⟩
        intro fuel
        rw [loadFromFile, loadFromFileInternal, hfile]
        dsimp only
        rw [if_neg List.not_mem_nil, hread]
        dsimp only
        rw [htext]
      | ok text =>
        refine .inr ⟨text, [file], ?_, ?_⟩
        · rw [FileSystem.text, hread]
          exact htext
        · intro fuel
          rw [loadFromFile, loadFromFileInternal, hfile]
          dsimp only
          rw [if_neg List.not_mem_nil, hread]
          dsimp only
          rw [htext]
          rfl

/-- A result stays the same with more fuel, so that there is at most one. -/
theorem loadFromFile_mono {fuel : Nat} {r : Except LoadError C} (h : fs.loadFromFile loadFromYaml fuel root = some r)
    {fuel' : Nat} (hfuel : fuel ≤ fuel') : fs.loadFromFile loadFromYaml fuel' root = some r := by
  induction hfuel with
  | refl => exact h
  | @step fuel' _ ih =>
    rcases loadFromFile_cases fs loadFromYaml root with ⟨e, -, hload⟩ | ⟨text, visited, -, hload⟩
    · rw [hload] at ih ⊢
      exact ih
    · rw [hload] at ih ⊢
      obtain ⟨result, hresult, rfl⟩ := Option.map_eq_some_iff.mp ih
      rw [processIncludes_mono hresult, Option.map_some]

theorem loads_of_no_cycle [Finite File] (hcycle : ¬fs.CycleReachable root) : fs.Loads loadFromYaml root := by
  rcases loadFromFile_cases fs loadFromYaml root with ⟨e, -, hload⟩ | ⟨text, visited, htext, hload⟩
  · refine ⟨0, ?_⟩
    rw [hload]
    rfl
  · refine ⟨Nat.card (Option File), ?_⟩
    rw [hload, Option.isSome_map]
    exact isSome_processIncludes hcycle htext

theorem not_reportsCircular : ¬fs.ReportsCircular loadFromYaml root := by
  rintro ⟨fuel, path, h⟩
  rcases loadFromFile_cases fs loadFromYaml root with ⟨e, hne, hload⟩ | ⟨text, visited, -, hload⟩
  · rw [hload] at h
    exact hne path (Except.error.inj (Option.some.inj h))
  · rw [hload] at h
    obtain ⟨result, hresult, hfinish⟩ := Option.map_eq_some_iff.mp h
    cases result with
    | error e =>
      cases hfinish
      exact processIncludes_ne_circular path hresult
    | ok contents =>
      rw [finish] at hfinish
      cases hyaml : loadFromYaml contents with
      | error e =>
        rw [hyaml] at hfinish
        cases hfinish
      | ok config =>
        rw [hyaml] at hfinish
        cases hfinish

/-- Includes are handled as promised exactly if there is no cycle. -/
theorem handlesIncludes_iff [Finite File] (fs : FileSystem File) (loadFromYaml : String → Except Error C) (root : String) :
    fs.HandlesIncludes loadFromYaml root ↔ ¬fs.CycleReachable root := by
  constructor
  · rintro ⟨-, hiff⟩ hcycle
    exact not_reportsCircular (hiff.mpr hcycle)
  · intro hcycle
    exact ⟨loads_of_no_cycle hcycle, fun h => absurd h not_reportsCircular, fun h => absurd h hcycle⟩

/-- A file that includes another one twice. -/
def twiceIncluded : FileSystem Bool where
  canonicalize := fun path =>
    if path = "main.yaml" then .ok false else if path = "hosts.yaml" then .ok true else .error "not found"
  contents := fun file => .ok (if file then "hosts" else "!include hosts.yaml !include hosts.yaml")
  var := fun _ => none

theorem includes_twiceIncluded {p q : String} (hp : p = "main.yaml" ∨ p = "hosts.yaml")
    (h : twiceIncluded.Includes p q) : p = "main.yaml" ∧ q = "hosts.yaml" := by
  obtain ⟨text, htext, cap, hcap, rfl⟩ := h
  rcases hp with rfl | rfl
  · have hcaptures : capturesIter matchInclude "!include hosts.yaml !include hosts.yaml" =
        [⟨"!include hosts.yaml", "hosts.yaml"⟩, ⟨"!include hosts.yaml", "hosts.yaml"⟩] := by decide
    obtain rfl : "!include hosts.yaml !include hosts.yaml" = text := Except.ok.inj htext
    rw [hcaptures] at hcap
    obtain rfl : cap = ⟨"!include hosts.yaml", "hosts.yaml"⟩ := by simpa using hcap
    exact ⟨rfl, by decide⟩
  · have hcaptures : capturesIter matchInclude "hosts" = [] := by decide
    obtain rfl : "hosts" = text := Except.ok.inj htext
    rw [hcaptures] at hcap
    exact absurd hcap List.not_mem_nil

theorem reached_twiceIncluded {p : String} (h : ReflTransGen twiceIncluded.Includes "main.yaml" p) :
    p = "main.yaml" ∨ p = "hosts.yaml" := by
  induction h with
  | refl => exact .inl rfl
  | tail _ hstep ih => exact .inr (includes_twiceIncluded ih hstep).2

/-- The included file includes nothing: loading ends, with its text in both places. -/
theorem handlesIncludes_iff_twice :
    twiceIncluded.HandlesIncludes (C := String) .ok "main.yaml" ∧
      ∀ fuel, 2 ≤ fuel → twiceIncluded.loadFromFile (C := String) .ok fuel "main.yaml" = some (.ok "hosts hosts") := by
  have hcycle : ¬twiceIncluded.CycleReachable "main.yaml" := by
    rintro ⟨p, q, hp, hpq, hfile⟩
    obtain ⟨r, hpr, hrq⟩ := TransGen.head'_iff.mp hpq
    obtain ⟨rfl, rfl⟩ := includes_twiceIncluded (reached_twiceIncluded hp) hpr
    rcases ReflTransGen.cases_head hrq with rfl | ⟨r', hstep, -⟩
    · exact absurd hfile (by decide)
    · exact absurd (includes_twiceIncluded (.inr rfl) hstep).1 (by decide)
  exact ⟨(handlesIncludes_iff _ _ _).mpr hcycle, fun fuel hfuel => loadFromFile_mono (by decide) hfuel⟩

/-- A file that includes itself. -/
def selfInclude : FileSystem Unit where
  canonicalize := fun _ => .ok ()
  contents := fun _ => .ok "!include main.yaml"
  var := fun _ => none

/-- The file is resolved to itself, and its text has one directive. -/
theorem processIncludes_selfInclude (fuel : Nat) :
    selfInclude.processIncludes fuel "!include main.yaml" (some "") [()] = none := by
  induction fuel with
  | zero => rfl
  | succ fuel ih =>
    have hcaptures : capturesIter matchInclude "!include main.yaml" = [⟨"!include main.yaml", "main.yaml"⟩] := by decide
    have hparent : Path.parent "main.yaml" = some "" := by decide
    have hincluded : selfInclude.included fuel [()] (resolvePath (some "") "main.yaml") = none := by
      rw [included, resolvePath, show Path.join "" "main.yaml" = "main.yaml" by decide,
        show selfInclude.text "main.yaml" = .ok "!include main.yaml" from rfl, hparent]
      exact ih
    rw [processIncludes_succ, hcaptures, replaceIncludes]
    dsimp only
    rw [hincluded]

/-- Loading a file that includes itself never ends, and never reports the cycle. -/
theorem not_handlesIncludes_self :
    selfInclude.CycleReachable "main.yaml" ∧
      (∀ fuel, selfInclude.loadFromFile (C := String) .ok fuel "main.yaml" = none) ∧
      ¬selfInclude.HandlesIncludes (C := String) .ok "main.yaml" := by
  have hincludes : selfInclude.Includes "main.yaml" "main.yaml" :=
    ⟨"!include main.yaml", rfl, ⟨"!include main.yaml", "main.yaml"⟩, by decide, by decide⟩
  have hnone : ∀ fuel, selfInclude.loadFromFile (C := String) .ok fuel "main.yaml" = none := by
    intro fuel
    have hload : selfInclude.loadFromFile (C := String) .ok fuel "main.yaml" =
        (selfInclude.processIncludes fuel "!include main.yaml" (some "") [()]).map (finish .ok) := rfl
    rw [hload, processIncludes_selfInclude, Option.map_none]
  refine ⟨⟨_, _, .refl, .single hincludes, rfl⟩, hnone, ?_⟩
  rintro ⟨⟨fuel, hsome⟩, -⟩
  rw [hnone] at hsome
  cases hsome

end FileSystem

end Lazydns
