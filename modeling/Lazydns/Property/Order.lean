import Lazydns.Plugin.Resolve
import Lazydns.Plugin.Validation
import Lazydns.Server.Service

/-!
# The order of the configuration

Every reference should lead to the plugin that is registered under the name when all is done, wherever the two stand in the configuration. Fallbacks get their children last, so theirs do. A sequence gets the plugins of its steps when it is registered anew; if it refers to a sequence that comes later, or to itself, it is left with the empty placeholder that was there before.
-/

namespace Lazydns

namespace PluginBuilder

variable {env : Env} {factories : Factories} {b b' : PluginBuilder}
  {configs configs' : List PluginConfig} {config : PluginConfig} {name : String}

/-! ### The law -/

/-- An address is the final one of an action: of a plugin of the step's own, a fallback with its children, or of the plugin registered under the name. -/
def Denotes (b : PluginBuilder) : Action → Nat → Prop
  | .leaf l, id => b.objects[id]? = some (.leaf l)
  | .fallback names, id =>
    b.objects[id]? = some (resolveChildren b.plugins (FallbackPlugin.withNames names))
  | .named name, id => b.getPlugin name = some id

/-- Every plugin is registered as the configuration describes it, and everything it refers to is what is registered. -/
structure Resolved (env : Env) (factories : Factories) (configs : List PluginConfig) (b : PluginBuilder) :
    Prop where
  sequences : ∀ config ∈ configs, typeOf env config = "sequence" → ∃ id ids steps,
    b.getPlugin config.effectiveName = some id ∧ b.objects[id]? = some (.sequence config.tag ids) ∧
    declared factories b.known b.getLeaf config = some steps ∧
    List.Forall₂ (SequenceStep.Rel (Denotes b)) steps ids
  fallbacks : ∀ config ∈ configs, typeOf env config = "fallback" → ∃ id,
    b.getPlugin config.effectiveName = some id ∧
    b.objects[id]? = some (resolveChildren b.plugins (FallbackPlugin.init config))
  leaves : ∀ config ∈ configs, ∀ l, create env factories config = .ok (.leaf l) → ∃ id,
    b.getPlugin config.effectiveName = some id ∧ b.objects[id]? = some (.leaf l)
  absent : ∀ name, (∀ config ∈ configs, config.effectiveName = name →
    ∀ object, create env factories config ≠ .ok object) → b.getPlugin name = none

/-- The ways the handler can process a request with these plugins: with the registry in any order, and each plugin unfolded as deep as the run reaches. -/
def Processes (env : Env) (b : PluginBuilder) (fuel : Nat) (entry : String) (req : RequestContext)
    (p : Proc World (Except Stop Dns.Message)) : Prop :=
  ∃ reg, b.Registers (fuel + 1) reg ∧ PluginHandler.handle env reg fuel entry req = p

/-- The name a step refers to. -/
def reference (factories : Factories) : Value → Option String
  | .mapping entries =>
    match (Value.getKey "exec" entries).map (parseAction factories) with
    | some (.ok (.named name)) => some name
    | _ => none
  | _ => none

/-- The names the steps of a sequence refer to. -/
def references (factories : Factories) (config : PluginConfig) : List String :=
  match config.args with
  | .sequence items => items.filterMap (reference factories)
  | .mapping entries =>
    match Value.getKey "plugins" entries with
    | some (.sequence names) => names.filterMap Value.asStr
    | _ => []
  | _ => []

/-- Every sequence that another one refers to comes before it. -/
def DefinedFirst (env : Env) (factories : Factories) (configs : List PluginConfig) : Prop :=
  ∀ config ∈ configs, typeOf env config = "sequence" → ∀ name ∈ references factories config,
    name ∈ sequenceNames env configs → name ∈ sequenceNames env (before config configs)

instance (env : Env) (factories : Factories) (configs : List PluginConfig) :
    Decidable (DefinedFirst env factories configs) :=
  inferInstanceAs (Decidable (∀ config ∈ configs, _))

/-- No sequence refers to a sequence. -/
def NoneNamed (env : Env) (factories : Factories) (configs : List PluginConfig) : Prop :=
  ∀ config ∈ configs, typeOf env config = "sequence" → ∀ name ∈ references factories config,
    name ∉ sequenceNames env configs

/-! ### References and declared steps -/

theorem readStep_eq_ok {condition : String → Except String Condition} {item : Value}
    {r : Option Condition × Value} (h : readStep condition item = .ok r) :
    ∃ entries, item = .mapping entries ∧ Value.getKey "exec" entries = some r.2 := by
  cases item with
  | mapping entries =>
    refine ⟨entries, rfl, ?_⟩
    rw [readStep] at h
    split at h
    · rename_i conditionStr _
      cases hcondition : condition conditionStr with
      | error e =>
        rw [hcondition] at h
        cases h
      | ok cond =>
        rw [hcondition] at h
        cases hexec : Value.getKey "exec" entries with
        | none =>
          simp only [hexec] at h
          cases h
        | some execValue =>
          simp only [hexec] at h
          cases h
          rfl
    · cases h
    · split at h
      · cases h
        assumption
      · cases h
  | null => cases h
  | bool value => cases h
  | number text => cases h
  | string s => cases h
  | sequence items => cases h

@[simp] theorem stepOf_action {P : Type} (condition : Option Condition) (action : P) :
    (stepOf condition action).action = action := by
  cases condition <;> rfl

section

variable {known : String → Bool} {leafOf : String → Option Leaf} {steps : List (SequenceStep Action)}

private theorem reference_mapping {entries : List (Value × Value)} {execValue : Value}
    (hexec : Value.getKey "exec" entries = some execValue) :
    reference factories (.mapping entries) =
      match parseAction factories execValue with
      | .ok (.named name) => some name
      | _ => none := by
  rw [reference, hexec, Option.map_some]
  cases parseAction factories execValue with
  | error e => rfl
  | ok action => cases action <;> rfl

private theorem mem_references_steps (hname : known name = true) {items : List Value}
    (hdeclared : declaredSteps factories known leafOf items = .ok steps) :
    name ∈ items.filterMap (reference factories) ↔ ∃ step ∈ steps, step.action = .named name := by
  induction items generalizing steps with
  | nil =>
    cases hdeclared
    simp
  | cons item items ih =>
    cases hread : readStep (factories.condition leafOf) item with
    | error e =>
      rw [declaredSteps, hread] at hdeclared
      cases hdeclared
    | ok r =>
      obtain ⟨condition, execValue⟩ := r
      obtain ⟨entries, rfl, hexec⟩ := readStep_eq_ok hread
      rw [declaredSteps_cons hread] at hdeclared
      rw [List.filterMap_cons, reference_mapping hexec]
      cases haction : parseAction factories execValue with
      | error e =>
        rw [haction] at hdeclared
        exact ih hdeclared
      | ok action =>
        rw [haction] at hdeclared
        dsimp only at hdeclared
        by_cases havailable : action.available known = true
        · rw [if_pos havailable] at hdeclared
          cases hrest : declaredSteps factories known leafOf items with
          | error e =>
            rw [hrest] at hdeclared
            cases hdeclared
          | ok rest =>
            rw [hrest] at hdeclared
            cases hdeclared
            cases action with
            | leaf l => simpa using ih hrest
            | fallback names => simpa using ih hrest
            | named other =>
              simp only [List.mem_cons, exists_eq_or_imp, stepOf_action, Action.named.injEq, ih hrest]
              rw [eq_comm]
        · rw [if_neg havailable] at hdeclared
          cases action with
          | leaf l => exact absurd rfl havailable
          | fallback names => exact absurd rfl havailable
          | named other =>
            have hne : name ≠ other := by
              rintro rfl
              exact havailable hname
            simpa [hne] using ih hdeclared

private theorem mem_references_names {names : List Value}
    (hdeclared : declaredNames known names = some steps) :
    name ∈ names.filterMap Value.asStr ↔ ∃ step ∈ steps, step.action = .named name := by
  induction names generalizing steps with
  | nil =>
    cases hdeclared
    simp
  | cons value names ih =>
    cases value with
    | string child =>
      rw [declaredNames, Option.ite_none_right_eq_some] at hdeclared
      obtain ⟨rest, hrest, rfl⟩ := Option.map_eq_some_iff.mp hdeclared.2
      simp only [List.filterMap_cons, Value.asStr, List.mem_cons, exists_eq_or_imp, ih hrest,
        SequenceStep.action, Action.named.injEq]
      rw [eq_comm]
    | null => cases hdeclared
    | bool value => cases hdeclared
    | number text => cases hdeclared
    | sequence items => cases hdeclared
    | mapping entries => cases hdeclared

theorem mem_references (hname : known name = true)
    (hdeclared : declared factories known leafOf config = some steps) :
    name ∈ references factories config ↔ ∃ step ∈ steps, step.action = .named name := by
  rw [declared] at hdeclared
  rw [references]
  cases hargs : config.args with
  | sequence items =>
    rw [hargs] at hdeclared
    cases hsteps : declaredSteps factories known leafOf items with
    | error e =>
      simp only [hsteps] at hdeclared
      cases hdeclared
    | ok steps' =>
      simp only [hsteps] at hdeclared
      cases hdeclared
      exact mem_references_steps hname hsteps
  | mapping entries =>
    rw [hargs] at hdeclared
    dsimp only at hdeclared ⊢
    cases hplugins : Value.getKey "plugins" entries with
    | none =>
      rw [hplugins] at hdeclared
      cases hdeclared
    | some value =>
      rw [hplugins] at hdeclared
      cases value with
      | sequence names => exact mem_references_names hdeclared
      | null => cases hdeclared
      | bool value => cases hdeclared
      | number text => cases hdeclared
      | string s => cases hdeclared
      | mapping entries => cases hdeclared
  | null =>
    rw [hargs] at hdeclared
    cases hdeclared
  | bool value =>
    rw [hargs] at hdeclared
    cases hdeclared
  | number text =>
    rw [hargs] at hdeclared
    cases hdeclared
  | string s =>
    rw [hargs] at hdeclared
    cases hdeclared

end

/-! ### Which references are resolved -/

/-- Steps that are linked as the registry was become steps that denote what it is, exactly if no reference leads to a placeholder. -/
theorem denotes_of_linked {ids : List Nat} (h : Resolves b ids b')
    {registry : String → Option Nat} {action : Action} {id : Nat}
    (hlinked : Linked b.objects registry action id) (hmem : id ∈ ids)
    (hnamed : ∀ name, action = .named name → registry name = some id → b.getPlugin name = some id) :
    Denotes b' action id := by
  cases action with
  | leaf l => exact h.leaf hlinked
  | fallback names =>
    have hobject : b.objects[id]? = some (FallbackPlugin.withNames names) := hlinked
    rw [Denotes, h.objects, hobject, Option.map_some, if_pos hmem, h.plugins]
  | named name => exact (h.getPlugin name).trans (hnamed name rfl hlinked)

theorem eq_of_effectiveName (hnodup : (configs.map (·.effectiveName)).Nodup) {c : PluginConfig}
    (hc : c ∈ configs) (hconfig : config ∈ configs) (hname : c.effectiveName = config.effectiveName) :
    c = config := List.inj_on_of_nodup_map hnodup hc hconfig hname

theorem not_mem_sequenceNames (hnodup : (configs.map (·.effectiveName)).Nodup) (hconfig : config ∈ configs)
    (htype : typeOf env config ≠ "sequence") : config.effectiveName ∉ sequenceNames env configs := by
  rw [mem_sequenceNames]
  rintro ⟨c, hc, hctype, hname⟩
  rw [eq_of_effectiveName hnodup hc hconfig hname] at hctype
  exact htype hctype

/-- The references are resolved exactly if every sequence comes after those it refers to. -/
theorem resolved_load_iff (hnodup : (configs.map (·.effectiveName)).Nodup)
    (hok : (load env factories configs).1 = .ok ()) :
    Resolved env factories configs (load env factories configs).2 ↔ DefinedFirst env factories configs := by
  have hbuilt : Built env factories configs (buildAll env factories configs) := built_buildAll hnodup
  obtain ⟨b, addresses, hrebuilt, hresolves, hfallbacks, hembedded⟩ := load_spec hnodup hok
  have hknown : (load env factories configs).2.known = (buildAll env factories configs).known :=
    hresolves.known.trans (hrebuilt.known hbuilt (List.Subset.refl _))
  have hleaf : (load env factories configs).2.getLeaf = (buildAll env factories configs).getLeaf :=
    hresolves.getLeaf.trans (hrebuilt.getLeaf hbuilt (List.Subset.refl _))
  have hplaceholder : ∀ {name}, name ∈ sequenceNames env configs →
      (buildAll env factories configs).known name = true := by
    intro name hname
    obtain ⟨config, hconfig, htype, rfl⟩ := mem_sequenceNames.mp hname
    obtain ⟨id, hid, -⟩ := hbuilt.made config hconfig _ (create_of_sequence htype)
    rw [PluginBuilder.known, hid, Option.isSome_some]
  constructor
  · intro hresolved config hconfig htype name hreference hname
    obtain ⟨id, ids, steps, hid, hobject, hdeclared, hlinked⟩ := hrebuilt.sequences config hconfig htype
    obtain ⟨id', ids', steps', hid', hobject', hdeclared', hdenotes⟩ :=
      hresolved.sequences config hconfig htype
    cases hid.symm.trans ((hresolves.getPlugin _).symm.trans hid')
    cases (hresolves.sequence hobject).symm.trans hobject'
    rw [hknown, hleaf] at hdeclared'
    cases hdeclared.symm.trans hdeclared'
    obtain ⟨step, hstep, haction⟩ := (mem_references (hplaceholder hname) hdeclared).mp hreference
    obtain ⟨i, hi, rfl⟩ := List.mem_iff_getElem.mp hstep
    have hi' : i < ids.length := hlinked.length_eq ▸ hi
    have hrel := (hlinked.get hi hi').action
    have hrel' := (hdenotes.get hi hi').action
    simp only [List.get_eq_getElem, haction] at hrel hrel'
    by_contra hbefore
    have hold : (buildAll env factories configs).getPlugin name = some ids[i].action :=
      (if_neg hbefore).symm.trans hrel
    have hnew : b.getPlugin name = some ids[i].action := (hresolves.getPlugin name).symm.trans hrel'
    obtain ⟨idₙ, hidₙ, hle⟩ := hrebuilt.fresh name hname
    cases hnew.symm.trans hidₙ
    exact absurd (hbuilt.valid name _ hold) (Nat.not_lt_of_le hle)
  · intro hfirst
    refine ⟨fun config hconfig htype => ?_, fun config hconfig htype => ?_, fun config hconfig l hl => ?_,
      fun name hname => ?_⟩
    · obtain ⟨id, ids, steps, hid, hobject, hdeclared, hlinked⟩ := hrebuilt.sequences config hconfig htype
      refine ⟨id, ids, steps, (hresolves.getPlugin _).trans hid, hresolves.sequence hobject, ?_, ?_⟩
      · rw [hknown, hleaf]
        exact hdeclared
      · rw [List.forall₂_iff_get]
        refine ⟨hlinked.length_eq, fun i hi hi' => (hlinked.get hi hi').imp_action fun hrel => ?_⟩
        refine denotes_of_linked hresolves hrel (hembedded _ id _ _ hid hobject _ (List.get_mem ids _)) ?_
        intro name haction hregistry
        by_cases hname : name ∈ sequenceNames env configs
        · have hreference := (mem_references (hplaceholder hname) hdeclared).mpr
            ⟨_, List.get_mem steps _, haction⟩
          exact (if_pos (hfirst config hconfig htype name hreference hname)).symm.trans hregistry
        · have hbefore : name ∉ sequenceNames env (before config configs) := by
            rw [mem_sequenceNames]
            rintro ⟨c, hc, hctype, rfl⟩
            exact hname (mem_sequenceNames.mpr ⟨c, (List.takeWhile_sublist _).mem hc, hctype, rfl⟩)
          rw [hrebuilt.other name hname]
          exact (if_neg hbefore).symm.trans hregistry
    · obtain ⟨id, hid, hobject⟩ := hbuilt.made config hconfig _ (create_of_fallback htype)
      have hne : typeOf env config ≠ "sequence" := by
        rw [htype]
        decide
      have hid' := (hrebuilt.other _ (not_mem_sequenceNames hnodup hconfig hne)).trans hid
      refine ⟨id, (hresolves.getPlugin _).trans hid', ?_⟩
      rw [hresolves.objects, getElem?_mono hrebuilt.grown hobject, Option.map_some,
        if_pos (hfallbacks config hconfig htype id hid'), hresolves.plugins]
    · obtain ⟨id, hid, hobject⟩ := hbuilt.made config hconfig _ hl
      have hne : typeOf env config ≠ "sequence" := by
        intro htype
        rw [create_of_sequence htype] at hl
        cases hl
      have hid' := (hrebuilt.other _ (not_mem_sequenceNames hnodup hconfig hne)).trans hid
      exact ⟨id, (hresolves.getPlugin _).trans hid',
        hresolves.leaf (getElem?_mono hrebuilt.grown hobject)⟩
    · have hnotin : name ∉ sequenceNames env configs := by
        rw [mem_sequenceNames]
        rintro ⟨config, hconfig, htype, hconfigName⟩
        exact hname config hconfig hconfigName _ (create_of_sequence htype)
      rw [hresolves.getPlugin, hrebuilt.other name hnotin]
      exact hbuilt.absent name hname

/-! ### The same plugins in any order -/

theorem known_buildAll (hnodup : (configs.map (·.effectiveName)).Nodup) :
    (buildAll env factories configs).known name = true ↔
      ∃ config ∈ configs, config.effectiveName = name ∧ ∃ object, create env factories config = .ok object := by
  obtain ⟨-, hmade, habsent⟩ : Built env factories configs (buildAll env factories configs) :=
    built_buildAll hnodup
  constructor
  · intro hknown
    by_contra hnone
    rw [known, habsent name fun config hconfig hname object hobject =>
      hnone ⟨config, hconfig, hname, object, hobject⟩] at hknown
    cases hknown
  · rintro ⟨config, hconfig, rfl, object, hobject⟩
    obtain ⟨id, hid, -⟩ := hmade config hconfig object hobject
    rw [known, hid, Option.isSome_some]

theorem getLeaf_buildAll (hnodup : (configs.map (·.effectiveName)).Nodup) {l : Leaf} :
    (buildAll env factories configs).getLeaf name = some l ↔
      ∃ config ∈ configs, config.effectiveName = name ∧ create env factories config = .ok (.leaf l) := by
  have hknown := @known_buildAll env factories configs name hnodup
  obtain ⟨-, hmade, -⟩ : Built env factories configs (buildAll env factories configs) :=
    built_buildAll hnodup
  constructor
  · intro hleaf
    have hsome : (buildAll env factories configs).known name = true := by
      rw [getLeaf] at hleaf
      rw [known]
      cases hid : (buildAll env factories configs).getPlugin name with
      | none =>
        rw [hid] at hleaf
        cases hleaf
      | some id => rfl
    obtain ⟨config, hconfig, hname, object, hobject⟩ := hknown.mp hsome
    obtain ⟨id, hid, hget⟩ := hmade config hconfig object hobject
    rw [getLeaf, ← hname, hid, Option.bind_some, hget] at hleaf
    cases object with
    | leaf l' =>
      cases hleaf
      exact ⟨config, hconfig, hname, hobject⟩
    | sequence tag steps => cases hleaf
    | fallback plugins pending errorOnly => cases hleaf
  · rintro ⟨config, hconfig, rfl, hl⟩
    obtain ⟨id, hid, hget⟩ := hmade config hconfig _ hl
    rw [getLeaf, hid, Option.bind_some, hget]

theorem known_perm (hnodup : (configs.map (·.effectiveName)).Nodup) (hperm : configs'.Perm configs) :
    (buildAll env factories configs').known = (buildAll env factories configs).known := by
  funext name
  rw [Bool.eq_iff_iff, known_buildAll hnodup, known_buildAll ((hperm.map _).nodup_iff.mpr hnodup)]
  simp only [hperm.mem_iff]

theorem getLeaf_perm (hnodup : (configs.map (·.effectiveName)).Nodup) (hperm : configs'.Perm configs) :
    (buildAll env factories configs').getLeaf = (buildAll env factories configs).getLeaf := by
  funext name
  apply Option.ext
  intro l
  rw [getLeaf_buildAll hnodup, getLeaf_buildAll ((hperm.map _).nodup_iff.mpr hnodup)]
  simp only [hperm.mem_iff]

theorem load_ok_perm (hnodup : (configs.map (·.effectiveName)).Nodup) (hperm : configs'.Perm configs)
    (hok : (load env factories configs).1 = .ok ()) : (load env factories configs').1 = .ok () := by
  rw [load_ok_iff hnodup] at hok
  rw [load_ok_iff ((hperm.map _).nodup_iff.mpr hnodup), known_perm hnodup hperm, getLeaf_perm hnodup hperm]
  exact fun config hconfig => hok config (hperm.mem_iff.mp hconfig)

theorem known_load (hnodup : (configs.map (·.effectiveName)).Nodup)
    (hok : (load env factories configs).1 = .ok ()) :
    (load env factories configs).2.known = (buildAll env factories configs).known := by
  obtain ⟨b, ids, hrebuilt, hresolves, -⟩ := load_spec hnodup hok
  exact hresolves.known.trans (hrebuilt.known (built_buildAll hnodup) (List.Subset.refl _))

theorem getLeaf_load (hnodup : (configs.map (·.effectiveName)).Nodup)
    (hok : (load env factories configs).1 = .ok ()) :
    (load env factories configs).2.getLeaf = (buildAll env factories configs).getLeaf := by
  obtain ⟨b, ids, hrebuilt, hresolves, -⟩ := load_spec hnodup hok
  exact hresolves.getLeaf.trans (hrebuilt.getLeaf (built_buildAll hnodup) (List.Subset.refl _))

/-- The plugin registered under a name, as far as a number of nested calls reaches. -/
def content (b : PluginBuilder) (depth : Nat) (name : String) : Option Plugin :=
  (b.getPlugin name).map (b.unfold depth)

private theorem unfold_resolveChildren {id : Nat} {names : List String} {errorOnly : Bool}
    (hobject : b.objects[id]? = some (resolveChildren b.plugins (.fallback [] names errorOnly)))
    (depth : Nat) : b.unfold (depth + 1) id = .fallback (names.filterMap (b.content depth)) errorOnly := by
  rw [unfold, hobject, resolveChildren]
  dsimp only
  rw [List.nil_append, List.map_filterMap]
  rfl

/-- Addresses that denote the same action stand for the same plugin. -/
private theorem unfold_eq_of_denotes {depth : Nat}
    (ih : ∀ k ≤ depth, ∀ name, b'.content k name = b.content k name) (action : Action) (id id' : Nat)
    (h : Denotes b action id) (h' : Denotes b' action id') : b'.unfold depth id' = b.unfold depth id := by
  cases depth with
  | zero => rfl
  | succ depth =>
    cases action with
    | leaf l =>
      have hobject : b.objects[id]? = some (.leaf l) := h
      have hobject' : b'.objects[id']? = some (.leaf l) := h'
      rw [unfold, unfold, hobject, hobject']
    | fallback names =>
      rw [unfold_resolveChildren h, unfold_resolveChildren h']
      have heq : b'.content depth = b.content depth := funext (ih depth (Nat.le_succ depth))
      rw [heq]
    | named name =>
      have hname : b.getPlugin name = some id := h
      have hname' : b'.getPlugin name = some id' := h'
      have heq := ih (depth + 1) le_rfl name
      rw [content, content, hname, hname'] at heq
      exact Option.some.inj heq

private theorem map_eq_of_rel {P : Type} {R R' : Action → Nat → Prop} {f f' : Nat → P}
    (h : ∀ action id id', R action id → R' action id' → f' id' = f id) {steps : List (SequenceStep Action)}
    {ids : List (SequenceStep Nat)} (hids : List.Forall₂ (SequenceStep.Rel R) steps ids) :
    ∀ {ids'}, List.Forall₂ (SequenceStep.Rel R') steps ids' →
      ids'.map (SequenceStep.map f') = ids.map (SequenceStep.map f) := by
  induction hids with
  | nil =>
    intro ids' hids'
    cases hids'
    rfl
  | cons hstep _ ih =>
    intro ids' hids'
    cases hids' with
    | cons hstep' hrest' =>
      rw [List.map_cons, List.map_cons, ih hrest']
      congr 1
      cases hstep with
      | exec hR =>
        cases hstep' with
        | exec hR' => exact congrArg SequenceStep.exec (h _ _ _ hR hR')
      | cond condition hR =>
        cases hstep' with
        | cond _ hR' => exact congrArg (SequenceStep.cond condition) (h _ _ _ hR hR')

/-- Once all references are resolved, the plugins are what the configuration says, whatever its order. -/
theorem content_eq (hknown : b'.known = b.known) (hleaf : b'.getLeaf = b.getLeaf)
    (hperm : configs'.Perm configs) (h : Resolved env factories configs b)
    (h' : Resolved env factories configs' b') (depth : Nat) (name : String) :
    b'.content depth name = b.content depth name := by
  induction depth using Nat.strong_induction_on generalizing name with
  | h depth ih =>
    by_cases hmade : ∃ config ∈ configs, config.effectiveName = name ∧
        ∃ object, create env factories config = .ok object
    · obtain ⟨config, hconfig, rfl, object, hobject⟩ := hmade
      have hconfig' := hperm.mem_iff.mpr hconfig
      cases depth with
      | zero =>
        have hisSome := congrFun hknown config.effectiveName
        rw [known, known] at hisSome
        rw [content, content]
        cases hid : b.getPlugin config.effectiveName with
        | none =>
          rw [hid, Option.isSome_none, Option.isSome_eq_false_iff, Option.isNone_iff_eq_none] at hisSome
          rw [hisSome]
          rfl
        | some id =>
          rw [hid, Option.isSome_some] at hisSome
          obtain ⟨id', hid'⟩ := Option.isSome_iff_exists.mp hisSome
          rw [hid']
          rfl
      | succ depth =>
        have hbelow : ∀ k ≤ depth, ∀ name, b'.content k name = b.content k name :=
          fun k hk name => ih k (Nat.lt_succ_of_le hk) name
        rcases create_cases env factories config with ⟨htype, -⟩ | ⟨htype, -⟩ | ⟨-, -, ⟨l, hl⟩ | ⟨e, he⟩⟩
        · obtain ⟨id, hid, hget⟩ := h.fallbacks config hconfig htype
          obtain ⟨id', hid', hget'⟩ := h'.fallbacks config hconfig' htype
          have heq : b'.content depth = b.content depth := funext (hbelow depth le_rfl)
          rw [content, content, hid, hid', Option.map_some, Option.map_some, unfold_resolveChildren hget,
            unfold_resolveChildren hget', heq]
        · obtain ⟨id, ids, steps, hid, hget, hdeclared, hsteps⟩ := h.sequences config hconfig htype
          obtain ⟨id', ids', steps', hid', hget', hdeclared', hsteps'⟩ :=
            h'.sequences config hconfig' htype
          rw [hknown, hleaf] at hdeclared'
          cases hdeclared.symm.trans hdeclared'
          rw [content, content, hid, hid', Option.map_some, Option.map_some, unfold, unfold, hget, hget']
          dsimp only
          rw [map_eq_of_rel (unfold_eq_of_denotes hbelow) hsteps hsteps']
        · obtain ⟨id, hid, hget⟩ := h.leaves config hconfig l hl
          obtain ⟨id', hid', hget'⟩ := h'.leaves config hconfig' l hl
          rw [content, content, hid, hid', Option.map_some, Option.map_some, unfold, unfold, hget, hget']
        · rw [he] at hobject
          cases hobject
    · rw [content, content, h.absent name fun config hconfig hname object hobject =>
          hmade ⟨config, hconfig, hname, object, hobject⟩,
        h'.absent name fun config hconfig hname object hobject =>
          hmade ⟨config, hperm.mem_iff.mp hconfig, hname, object, hobject⟩]
      rfl

/-- Two orders in which every sequence comes after those it refers to process every request in the same ways. -/
theorem processes_iff (hnodup : (configs.map (·.effectiveName)).Nodup) (hperm : configs'.Perm configs)
    (hok : (load env factories configs).1 = .ok ())
    (h : Resolved env factories configs (load env factories configs).2)
    (h' : Resolved env factories configs' (load env factories configs').2) (fuel : Nat) (entry : String)
    (req : RequestContext) (p : Proc World (Except Stop Dns.Message)) :
    Processes env (load env factories configs').2 fuel entry req p ↔
      Processes env (load env factories configs).2 fuel entry req p := by
  have hnodup' : (configs'.map (·.effectiveName)).Nodup := (hperm.map _).nodup_iff.mpr hnodup
  have hok' : (load env factories configs').1 = .ok () := load_ok_perm hnodup hperm hok
  have hknown := (known_load hnodup' hok').trans ((known_perm hnodup hperm).trans (known_load hnodup hok).symm)
  have hleaf := (getLeaf_load hnodup' hok').trans
    ((getLeaf_perm hnodup hperm).trans (getLeaf_load hnodup hok).symm)
  have hcontent : ∀ name, ((load env factories configs').2.getPlugin name).map
      ((load env factories configs').2.unfold (fuel + 1)) =
      ((load env factories configs).2.getPlugin name).map ((load env factories configs).2.unfold (fuel + 1)) :=
    content_eq hknown hleaf hperm h h' (fuel + 1)
  simp only [Processes, Registers, hcontent]

theorem before_cons (config : PluginConfig) (rest : List PluginConfig) : before config (config :: rest) = [] := by
  simp [before]

/-- In a given order all references are resolved exactly if every sequence comes after those it refers to. They are resolved in every order, and every order processes all requests in the same ways, exactly if no sequence refers to a sequence. -/
theorem orderIndependent_iff (hnodup : (configs.map (·.effectiveName)).Nodup)
    (hok : (load env factories configs).1 = .ok ()) :
    (Resolved env factories configs (load env factories configs).2 ↔ DefinedFirst env factories configs) ∧
    ((∀ configs', configs'.Perm configs →
        Resolved env factories configs' (load env factories configs').2 ∧
        ∀ fuel entry req p, Processes env (load env factories configs').2 fuel entry req p ↔
          Processes env (load env factories configs).2 fuel entry req p) ↔
      NoneNamed env factories configs) := by
  refine ⟨resolved_load_iff hnodup hok, fun h config hconfig htype name hreference hname => ?_, ?_⟩
  · -- the order that has the referring sequence first
    obtain ⟨front, back, rfl⟩ := List.append_of_mem hconfig
    have hperm : (config :: (front ++ back)).Perm (front ++ config :: back) := List.perm_middle.symm
    have hfirst := (resolved_load_iff ((hperm.map _).nodup_iff.mpr hnodup)
      (load_ok_perm hnodup hperm hok)).mp (h _ hperm).1
    have hname' : name ∈ sequenceNames env (config :: (front ++ back)) := by
      rw [mem_sequenceNames] at hname ⊢
      simpa only [hperm.mem_iff] using hname
    have hbefore := hfirst config List.mem_cons_self htype name hreference hname'
    rw [before_cons] at hbefore
    cases hbefore
  · intro hnone configs' hperm
    have hresolved : ∀ {configs'}, configs'.Perm configs →
        Resolved env factories configs' (load env factories configs').2 := by
      intro configs' hperm
      refine (resolved_load_iff ((hperm.map _).nodup_iff.mpr hnodup) (load_ok_perm hnodup hperm hok)).mpr ?_
      intro config hconfig htype name hreference hname
      refine absurd ?_ (hnone config (hperm.mem_iff.mp hconfig) htype name hreference)
      rw [mem_sequenceNames] at hname ⊢
      simpa only [hperm.mem_iff] using hname
    exact ⟨hresolved hperm, processes_iff hnodup hperm hok (hresolved (List.Perm.refl _)) (hresolved hperm)⟩

/-! ### A sequence and one that refers to it -/

/-- The factories of `accept`. -/
def acceptFactories : Factories where
  plugin := fun _ => none
  exec := fun execPrefix => if execPrefix = "accept" then some fun _ => .ok (.plain .accept) else none
  condition := fun _ conditionStr => .error ("Unknown condition: " ++ conditionStr)
  plugin_sequence := rfl

def oneStep (name exec : String) : PluginConfig where
  tag := some name
  pluginType := "sequence"
  args := .sequence [.mapping [(.string "exec", .string exec)]]

/-- After the sequence it refers to, a sequence runs that one. -/
theorem orderIndependent_iff_sub :
    Resolved (.answering (.ok .new)) acceptFactories [oneStep "sub" "accept", oneStep "main" "$sub"]
      (load (.answering (.ok .new)) acceptFactories [oneStep "sub" "accept", oneStep "main" "$sub"]).2 :=
  (orderIndependent_iff (Validation.nodup_of_validatePlugins rfl) rfl).1.mpr (by decide +kernel)

/-- Before the sequence it refers to, a sequence runs an empty one in its place. -/
theorem not_orderIndependent_main : ¬ ∀ (env : Env) (factories : Factories) (configs : List PluginConfig),
    (configs.map (·.effectiveName)).Nodup → (load env factories configs).1 = .ok () →
    ∀ configs', configs'.Perm configs → Resolved env factories configs' (load env factories configs').2 ∧
      ∀ fuel entry req p, Processes env (load env factories configs').2 fuel entry req p ↔
        Processes env (load env factories configs).2 fuel entry req p := by
  intro h
  have hresolved := (h (.answering (.ok .new)) acceptFactories
    [oneStep "sub" "accept", oneStep "main" "$sub"] (Validation.nodup_of_validatePlugins rfl) rfl
    [oneStep "main" "$sub", oneStep "sub" "accept"] (List.Perm.swap _ _ _)).1
  exact absurd ((resolved_load_iff (Validation.nodup_of_validatePlugins rfl) rfl).mp hresolved) (by decide +kernel)

end PluginBuilder

end Lazydns
