import Lazydns.Plugin.Builder
import Mathlib.Data.List.Forall2
import Mathlib.Data.List.Induction

/-!
# What the builder links to what

Memory only grows while plugins are built and sequences parsed, so an address once given keeps its plugin. `declared` reads off a configuration what each step asks for; parsing gives every step an address for it, and for a reference this is the address the registry has at that moment. The two passes over fallbacks change nothing but the fallbacks.
-/

namespace Lazydns

/-- Two steps with the same condition and related plugins. -/
inductive SequenceStep.Rel {P Q : Type} (R : P → Q → Prop) : SequenceStep P → SequenceStep Q → Prop
  | exec {p : P} {q : Q} (h : R p q) : Rel R (.exec p) (.exec q)
  | cond {p : P} {q : Q} (condition : Condition) (h : R p q) :
    Rel R (.cond condition p) (.cond condition q)

namespace SequenceStep.Rel

variable {P Q : Type} {R S : P → Q → Prop} {s : SequenceStep P} {t : SequenceStep Q}

theorem imp_action (h : R s.action t.action → S s.action t.action) (hrel : Rel R s t) : Rel S s t := by
  cases hrel with
  | exec hR => exact .exec (h hR)
  | cond condition hR => exact .cond condition (h hR)

theorem imp (h : ∀ p q, R p q → S p q) (hrel : Rel R s t) : Rel S s t := hrel.imp_action (h _ _)

theorem action (hrel : Rel R s t) : R s.action t.action := by
  cases hrel with
  | exec hR => exact hR
  | cond condition hR => exact hR

theorem stepOf {p : P} {q : Q} (condition : Option Condition) (h : R p q) :
    Rel R (PluginBuilder.stepOf condition p) (PluginBuilder.stepOf condition q) := by
  cases condition with
  | none => exact .exec h
  | some condition => exact .cond condition h

end SequenceStep.Rel

namespace PluginBuilder

variable {env : Env} {factories : Factories} {b b' b'' : PluginBuilder} {config : PluginConfig}
  {name : String} {id : Nat} {object : PluginObject}

/-! ### Memory -/

/-- The registry is the same, and nothing in memory has changed. -/
structure Extends (b b' : PluginBuilder) : Prop where
  plugins : b'.plugins = b.plugins
  objects : b.objects <+: b'.objects

theorem getElem?_mono {objects objects' : List PluginObject} (h : objects <+: objects')
    (hid : objects[id]? = some object) : objects'[id]? = some object := by
  obtain ⟨rest, rfl⟩ := h
  rw [List.getElem?_append_left (List.getElem?_eq_some_iff.mp hid).1, hid]

theorem Extends.refl (b : PluginBuilder) : b.Extends b := ⟨rfl, List.prefix_rfl⟩

theorem Extends.trans (h : b.Extends b') (h' : b'.Extends b'') : b.Extends b'' :=
  ⟨h'.plugins.trans h.plugins, h.objects.trans h'.objects⟩

theorem Extends.getPlugin (h : b.Extends b') (name : String) : b'.getPlugin name = b.getPlugin name := by
  rw [PluginBuilder.getPlugin, h.plugins, PluginBuilder.getPlugin]

theorem extends_alloc (b : PluginBuilder) (object : PluginObject) : b.Extends (b.alloc object).2 :=
  ⟨rfl, List.prefix_append _ _⟩

theorem getElem?_alloc (b : PluginBuilder) (object : PluginObject) :
    (b.alloc object).2.objects[(b.alloc object).1]? = some object :=
  List.getElem?_concat_length

def Valid (b : PluginBuilder) : Prop := ∀ name id, b.getPlugin name = some id → id < b.objects.length

theorem Valid.of_extends (hb : b.Valid) (h : b.Extends b') : b'.Valid := by
  intro name id hid
  rw [h.getPlugin] at hid
  exact Nat.lt_of_lt_of_le (hb name id hid) h.objects.length_le

theorem Extends.getLeaf (h : b.Extends b') (hb : b.Valid) (name : String) :
    b'.getLeaf name = b.getLeaf name := by
  rw [PluginBuilder.getLeaf, PluginBuilder.getLeaf, h.getPlugin]
  cases hid : b.getPlugin name with
  | none => rfl
  | some id =>
    have hget := getElem?_mono h.objects (List.getElem?_eq_getElem (hb name id hid))
    rw [Option.bind_some, Option.bind_some, hget, List.getElem?_eq_getElem (hb name id hid)]

theorem getPlugin_register_self (b : PluginBuilder) (name : String) (object : PluginObject) :
    (b.register name object).getPlugin name = some b.objects.length := AList.lookup_insert _

theorem getPlugin_register_of_ne (b : PluginBuilder) {name name' : String} (object : PluginObject)
    (hne : name' ≠ name) : (b.register name object).getPlugin name' = b.getPlugin name' :=
  AList.lookup_insert_ne hne

theorem getElem?_register_self (b : PluginBuilder) (name : String) (object : PluginObject) :
    (b.register name object).objects[b.objects.length]? = some object := List.getElem?_concat_length

theorem prefix_register (b : PluginBuilder) (name : String) (object : PluginObject) :
    b.objects <+: (b.register name object).objects := List.prefix_append _ _

theorem Valid.register (hb : b.Valid) (name : String) (object : PluginObject) :
    (b.register name object).Valid := by
  intro name' id hid
  have hlength : (b.register name object).objects.length = b.objects.length + 1 := by
    rw [PluginBuilder.register, List.length_append, List.length_singleton]
  by_cases hname : name' = name
  · rw [hname, getPlugin_register_self] at hid
    cases hid
    omega
  · rw [getPlugin_register_of_ne b object hname] at hid
    have := hb name' id hid
    omega

theorem valid_new : new.Valid := fun name id h => by cases (AList.lookup_empty name).symm.trans h

/-! ### Building -/

/-- All that `build` can make. -/
theorem create_cases (env : Env) (factories : Factories) (config : PluginConfig) :
    typeOf env config = "fallback" ∧ create env factories config = .ok (FallbackPlugin.init config) ∨
    typeOf env config = "sequence" ∧ create env factories config = .ok (.sequence config.tag []) ∨
    typeOf env config ≠ "fallback" ∧ typeOf env config ≠ "sequence" ∧
      ((∃ l, create env factories config = .ok (.leaf l)) ∨ ∃ e, create env factories config = .error e) := by
  rw [create]
  by_cases hfallback : typeOf env config = "fallback"
  · rw [if_pos hfallback]
    exact .inl ⟨hfallback, rfl⟩
  · rw [if_neg hfallback]
    by_cases hsequence : typeOf env config = "sequence"
    · rw [hsequence, factories.plugin_sequence]
      exact .inr (.inl ⟨rfl, rfl⟩)
    · refine .inr (.inr ⟨hfallback, hsequence, ?_⟩)
      cases factories.plugin (typeOf env config) with
      | some factory =>
        dsimp only
        cases factory config with
        | ok l => exact .inl ⟨l, rfl⟩
        | error e => exact .inr ⟨e, rfl⟩
      | none =>
        dsimp only
        rw [if_neg hsequence]
        split
        · exact .inl ⟨_, rfl⟩
        · exact .inr ⟨_, rfl⟩

theorem create_of_sequence (htype : typeOf env config = "sequence") :
    create env factories config = .ok (.sequence config.tag []) := by
  rcases create_cases env factories config with ⟨hfallback, -⟩ | ⟨-, h⟩ | ⟨-, hne, -⟩
  · rw [hfallback] at htype
    exact absurd htype (by decide)
  · exact h
  · exact absurd htype hne

theorem create_of_fallback (htype : typeOf env config = "fallback") :
    create env factories config = .ok (FallbackPlugin.init config) := by
  rw [create, if_pos htype]

/-- Every entry that could be made is registered, and nothing else. -/
structure Built (env : Env) (factories : Factories) (configs : List PluginConfig) (b : PluginBuilder) :
    Prop where
  valid : b.Valid
  made : ∀ config ∈ configs, ∀ object, create env factories config = .ok object →
    ∃ id, b.getPlugin config.effectiveName = some id ∧ b.objects[id]? = some object
  absent : ∀ name, (∀ config ∈ configs, config.effectiveName = name →
    ∀ object, create env factories config ≠ .ok object) → b.getPlugin name = none

theorem built_buildAll {configs : List PluginConfig} (hnames : (configs.map (·.effectiveName)).Nodup) :
    Built env factories configs (buildAll env factories configs) := by
  induction configs using List.reverseRecOn with
  | nil => exact ⟨valid_new, nofun, fun name _ => AList.lookup_empty name⟩
  | append_singleton configs last ih =>
    rw [List.map_append, List.map_singleton, List.nodup_append] at hnames
    obtain ⟨hnodup, -, hlast⟩ := hnames
    obtain ⟨hvalid, hmade, habsent⟩ := ih hnodup
    have hne : ∀ config ∈ configs, config.effectiveName ≠ last.effectiveName := fun config hconfig =>
      hlast _ (List.mem_map_of_mem hconfig) _ (List.mem_singleton_self _)
    rw [buildAll, List.foldl_concat, ← buildAll, build]
    cases hcreate : create env factories last with
    | error e =>
      refine ⟨hvalid, fun config hconfig object h => ?_, fun name h => ?_⟩
      · rcases List.mem_append.mp hconfig with hconfig | hconfig
        · exact hmade config hconfig object h
        · rw [List.mem_singleton.mp hconfig, hcreate] at h
          cases h
      · exact habsent name fun config hconfig => h config (List.mem_append_left _ hconfig)
    | ok object =>
      refine ⟨hvalid.register _ _, fun config hconfig object' h => ?_, fun name h => ?_⟩
      · rcases List.mem_append.mp hconfig with hconfig | hconfig
        · obtain ⟨id, hid, hobject⟩ := hmade config hconfig object' h
          exact ⟨id, (getPlugin_register_of_ne _ _ (hne config hconfig)).trans hid,
            getElem?_mono (prefix_register _ _ _) hobject⟩
        · rw [List.mem_singleton.mp hconfig] at h ⊢
          cases hcreate.symm.trans h
          exact ⟨_, getPlugin_register_self _ _ _, getElem?_register_self _ _ _⟩
      · have hname : name ≠ last.effectiveName := fun heq =>
          h last (List.mem_append_right _ (List.mem_singleton_self _)) heq.symm object hcreate
        exact (getPlugin_register_of_ne _ _ hname).trans
          (habsent name fun config hconfig => h config (List.mem_append_left _ hconfig))

/-! ### What a sequence asks for -/

/-- Whether an action can be linked where these names are registered. -/
def Action.available (known : String → Bool) : Action → Bool
  | .leaf _ | .fallback _ => true
  | .named name => known name

section

variable (factories : Factories) (known : String → Bool) (leafOf : String → Option Leaf)

/-- The steps of a sequence that are not skipped, with their actions as they are asked for. -/
def declaredSteps : List Value → Except String (List (SequenceStep Action))
  | [] => .ok []
  | stepValue :: rest => do
    let (condition, execValue) ← readStep (factories.condition leafOf) stepValue
    match parseAction factories execValue with
    | .ok action =>
      if action.available known then (declaredSteps rest).map (stepOf condition action :: ·)
      else declaredSteps rest
    | .error _ => declaredSteps rest

def declaredNames : List Value → Option (List (SequenceStep Action))
  | [] => some []
  | .string child :: rest =>
    if known child then (declaredNames rest).map (.exec (.named child) :: ·) else none
  | _ :: _ => none

/-- What the steps of a sequence ask for, unless it cannot be parsed. -/
def declared (config : PluginConfig) : Option (List (SequenceStep Action)) :=
  match config.args with
  | .sequence items => (declaredSteps factories known leafOf items).toOption
  | .mapping entries =>
    match Value.getKey "plugins" entries with
    | some (.sequence names) => declaredNames known names
    | _ => none
  | _ => none

end

/-- The address of an action: a new plugin as the action says, or the one the registry has. -/
def Linked (objects : List PluginObject) (registry : String → Option Nat) : Action → Nat → Prop
  | .leaf l, id => objects[id]? = some (.leaf l)
  | .fallback names, id => objects[id]? = some (FallbackPlugin.withNames names)
  | .named name, id => registry name = some id

theorem Linked.mono {objects objects' : List PluginObject} {registry : String → Option Nat}
    (h : objects <+: objects') (action : Action) (id : Nat) (hlinked : Linked objects registry action id) :
    Linked objects' registry action id := by
  cases action with
  | leaf l => exact getElem?_mono h hlinked
  | fallback names => exact getElem?_mono h hlinked
  | named name => exact hlinked

def known (b : PluginBuilder) (name : String) : Bool := (b.getPlugin name).isSome

theorem link_cases (b : PluginBuilder) (action : Action) :
    action.available b.known = true ∧ (∃ id b', link b action = .ok (id, b') ∧ b.Extends b' ∧
      Linked b'.objects b.getPlugin action id) ∨
    action.available b.known = false ∧ ∃ e, link b action = .error e := by
  cases action with
  | leaf l => exact .inl ⟨rfl, _, _, rfl, extends_alloc _ _, getElem?_alloc _ _⟩
  | fallback names => exact .inl ⟨rfl, _, _, rfl, extends_alloc _ _, getElem?_alloc _ _⟩
  | named name =>
    rw [link, Action.available, PluginBuilder.known]
    cases hid : b.getPlugin name with
    | none => exact .inr ⟨rfl, _, rfl⟩
    | some id => exact .inl ⟨rfl, id, b, rfl, .refl b, hid⟩

section

variable {item : Value} {items : List Value} {condition : Option Condition} {execValue : Value}

theorem declaredSteps_cons {known : String → Bool} {leafOf : String → Option Leaf}
    (hread : readStep (factories.condition leafOf) item = .ok (condition, execValue)) :
    declaredSteps factories known leafOf (item :: items) =
      match parseAction factories execValue with
      | .ok action =>
        if action.available known then
          (declaredSteps factories known leafOf items).map (stepOf condition action :: ·)
        else declaredSteps factories known leafOf items
      | .error _ => declaredSteps factories known leafOf items := by
  rw [declaredSteps, hread]
  rfl

private theorem parseSequenceSteps_cons
    (hread : readStep (factories.condition b.getLeaf) item = .ok (condition, execValue)) :
    parseSequenceSteps factories b (item :: items) =
      match (parseAction factories execValue).bind (link b) with
      | .ok (id, b) =>
        (parseSequenceSteps factories b items).map fun r => (stepOf condition id :: r.1, r.2)
      | .error _ => parseSequenceSteps factories b items := by
  rw [parseSequenceSteps, hread, ← parseExecAction]
  cases hexec : parseExecAction factories b execValue with
  | error e =>
    simp only [bind, Except.bind, hexec]
  | ok r =>
    obtain ⟨id, b₁⟩ := r
    simp only [bind, Except.bind, hexec]
    cases parseSequenceSteps factories b₁ items with
    | error e => rfl
    | ok r => rfl

end

variable (factories) in
theorem parseSequenceSteps_spec (hb : b.Valid) (items : List Value) :
    (∃ e, declaredSteps factories b.known b.getLeaf items = .error e ∧
      parseSequenceSteps factories b items = .error e) ∨
    ∃ steps ids b', declaredSteps factories b.known b.getLeaf items = .ok steps ∧
      parseSequenceSteps factories b items = .ok (ids, b') ∧ b.Extends b' ∧
      List.Forall₂ (SequenceStep.Rel (Linked b'.objects b.getPlugin)) steps ids := by
  induction items generalizing b with
  | nil => exact .inr ⟨[], [], b, rfl, rfl, .refl b, .nil⟩
  | cons item items ih =>
    cases hread : readStep (factories.condition b.getLeaf) item with
    | error e =>
      refine .inl ⟨e, ?_, ?_⟩
      · rw [declaredSteps, hread]
        rfl
      · rw [parseSequenceSteps, hread]
        rfl
    | ok r =>
      obtain ⟨condition, execValue⟩ := r
      rw [declaredSteps_cons hread, parseSequenceSteps_cons hread]
      cases parseAction factories execValue with
      | error e => exact ih hb
      | ok action =>
        dsimp only [Except.bind]
        rcases link_cases b action with ⟨havailable, id, b₁, hlink, hextends, hlinked⟩ | ⟨havailable, e, hlink⟩
        · have hknown : b₁.known = b.known := funext fun name => by
            rw [PluginBuilder.known, PluginBuilder.known, hextends.getPlugin]
          have hleaf : b₁.getLeaf = b.getLeaf := funext fun name => hextends.getLeaf hb name
          have hplugin : b₁.getPlugin = b.getPlugin := funext fun name => hextends.getPlugin name
          rw [hlink, if_pos havailable]
          dsimp only
          rcases ih (hb.of_extends hextends) with ⟨e, hdeclared, hparse⟩ |
            ⟨steps, ids, b₂, hdeclared, hparse, hextends₂, hsteps⟩
          · rw [hknown, hleaf] at hdeclared
            exact .inl ⟨e, by rw [hdeclared]; rfl, by rw [hparse]; rfl⟩
          · rw [hknown, hleaf] at hdeclared
            rw [hplugin] at hsteps
            exact .inr ⟨stepOf condition action :: steps, stepOf condition id :: ids, b₂,
              by rw [hdeclared]; rfl, by rw [hparse]; rfl, hextends.trans hextends₂,
              .cons (.stepOf condition (hlinked.mono hextends₂.objects)) hsteps⟩
        · rw [hlink, havailable]
          exact ih hb

theorem parsePluginNames_spec (b : PluginBuilder) (name : String) (names : List Value) :
    (declaredNames b.known names = none ∧ ∃ e, parsePluginNames b name names = .error e) ∨
    ∃ steps ids, declaredNames b.known names = some steps ∧ parsePluginNames b name names = .ok ids ∧
      List.Forall₂ (SequenceStep.Rel (Linked b.objects b.getPlugin)) steps (ids.map .exec) := by
  induction names with
  | nil => exact .inr ⟨[], [], rfl, rfl, .nil⟩
  | cons value names ih =>
    cases value with
    | string child =>
      rw [declaredNames, parsePluginNames, known]
      cases hid : b.getPlugin child with
      | none => exact .inl ⟨rfl, _, rfl⟩
      | some id =>
        dsimp only
        rw [Option.isSome_some, if_pos rfl]
        rcases ih with ⟨hnone, e, herror⟩ | ⟨steps, ids, hsome, hok, hsteps⟩
        · exact .inl ⟨by rw [hnone]; rfl, e, by rw [herror]; rfl⟩
        · exact .inr ⟨.exec (.named child) :: steps, id :: ids, by rw [hsome]; rfl, by rw [hok]; rfl,
            .cons (.exec hid) hsteps⟩
    | null => exact .inl ⟨rfl, _, rfl⟩
    | bool value => exact .inl ⟨rfl, _, rfl⟩
    | number text => exact .inl ⟨rfl, _, rfl⟩
    | sequence items => exact .inl ⟨rfl, _, rfl⟩
    | mapping entries => exact .inl ⟨rfl, _, rfl⟩

variable (factories) in
theorem rebuild_spec (hb : b.Valid) (config : PluginConfig) :
    (declared factories b.known b.getLeaf config = none ∧ ∃ e, b.rebuild factories config = .error e) ∨
    ∃ steps ids b', declared factories b.known b.getLeaf config = some steps ∧ b.Extends b' ∧
      b.rebuild factories config = .ok (b'.register config.effectiveName (.sequence config.tag ids)) ∧
      List.Forall₂ (SequenceStep.Rel (Linked b'.objects b.getPlugin)) steps ids := by
  rw [declared, rebuild]
  cases config.args with
  | sequence items =>
    rcases parseSequenceSteps_spec factories hb items with ⟨e, hdeclared, hparse⟩ |
      ⟨steps, ids, b', hdeclared, hparse, hextends, hsteps⟩
    · exact .inl ⟨by simp only [hdeclared]; rfl, _, by simp only [hparse]; rfl⟩
    · exact .inr ⟨steps, ids, b', by simp only [hdeclared]; rfl, hextends, by simp only [hparse], hsteps⟩
  | mapping entries =>
    dsimp only
    cases Value.getKey "plugins" entries with
    | none => exact .inl ⟨rfl, _, rfl⟩
    | some value =>
      cases value with
      | sequence names =>
        rcases parsePluginNames_spec b config.effectiveName names with ⟨hnone, e, herror⟩ |
          ⟨steps, ids, hsome, hok, hsteps⟩
        · exact .inl ⟨hnone, e, by simp only [herror]; rfl⟩
        · exact .inr ⟨steps, ids.map .exec, b, hsome, .refl b, by simp only [hok]; rfl, hsteps⟩
      | null => exact .inl ⟨rfl, _, rfl⟩
      | bool value => exact .inl ⟨rfl, _, rfl⟩
      | number text => exact .inl ⟨rfl, _, rfl⟩
      | string s => exact .inl ⟨rfl, _, rfl⟩
      | mapping entries => exact .inl ⟨rfl, _, rfl⟩
  | null => exact .inl ⟨rfl, _, rfl⟩
  | bool value => exact .inl ⟨rfl, _, rfl⟩
  | number text => exact .inl ⟨rfl, _, rfl⟩
  | string s => exact .inl ⟨rfl, _, rfl⟩

end PluginBuilder

end Lazydns
