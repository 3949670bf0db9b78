import Lazydns.Plugin.BuilderRules

/-!
# The passes of `resolve_references`

The first pass goes through the configuration in its order. When it comes to a sequence, the sequences before it have been registered anew and the others are the placeholders they were built as; so a reference to a sequence gets the address of the final one or of the placeholder, according to where that sequence stands. `Rebuilt` says this of the builder after a part of the configuration. The passes over fallbacks come when everything is registered.
-/

namespace Lazydns

namespace PluginBuilder

variable {env : Env} {factories : Factories} {b₀ b b' b'' : PluginBuilder}
  {configs done rest : List PluginConfig} {config : PluginConfig} {name : String}

/-! ### Positions in the configuration -/

def sequenceNames (env : Env) (configs : List PluginConfig) : List String :=
  (configs.filter fun config => typeOf env config = "sequence").map (·.effectiveName)

/-- The entries before the one with the name of this one. -/
def before (config : PluginConfig) (configs : List PluginConfig) : List PluginConfig :=
  configs.takeWhile fun c => c.effectiveName ≠ config.effectiveName

theorem mem_sequenceNames : name ∈ sequenceNames env configs ↔
    ∃ config ∈ configs, typeOf env config = "sequence" ∧ config.effectiveName = name := by
  simp only [sequenceNames, List.mem_map, List.mem_filter, decide_eq_true_eq, and_assoc]

theorem sequenceNames_append (configs configs' : List PluginConfig) :
    sequenceNames env (configs ++ configs') = sequenceNames env configs ++ sequenceNames env configs' := by
  rw [sequenceNames, List.filter_append, List.map_append]
  rfl

theorem sequenceNames_singleton (config : PluginConfig) : sequenceNames env [config] =
    if typeOf env config = "sequence" then [config.effectiveName] else [] := by
  rw [sequenceNames]
  by_cases htype : typeOf env config = "sequence"
  · rw [if_pos htype, List.filter_cons, if_pos (decide_eq_true htype)]
    rfl
  · rw [if_neg htype, List.filter_cons, if_neg (by rwa [decide_eq_true_iff])]
    rfl

theorem mem_done_of_mem_before (hmem : config ∈ done) {c : PluginConfig}
    (hc : c ∈ before config (done ++ rest)) : c ∈ done := by
  induction done with
  | nil => cases hmem
  | cons d done ih =>
    rw [before, List.cons_append, List.takeWhile_cons] at hc
    split at hc
    · rename_i hne
      rcases List.mem_cons.mp hc with rfl | hc
      · exact List.mem_cons_self
      · rcases List.mem_cons.mp hmem with rfl | hmem
        · exact absurd rfl (of_decide_eq_true hne)
        · exact List.mem_cons_of_mem _ (ih hmem hc)
    · cases hc

theorem before_of_not_mem (hne : ∀ c ∈ done, c.effectiveName ≠ config.effectiveName) :
    before config (done ++ config :: rest) = done := by
  rw [before, List.takeWhile_append_of_pos fun c hc => decide_eq_true (hne c hc), List.takeWhile_cons]
  simp

/-! ### Sequences -/

/-- The builder after the first pass has gone through a part of the configuration, with the registry it started with. -/
structure Rebuilt (env : Env) (factories : Factories) (configs : List PluginConfig) (b₀ : PluginBuilder)
    (done : List PluginConfig) (b : PluginBuilder) : Prop where
  valid : b.Valid
  grown : b₀.objects <+: b.objects
  fresh : ∀ name ∈ sequenceNames env done, ∃ id, b.getPlugin name = some id ∧ b₀.objects.length ≤ id
  other : ∀ name ∉ sequenceNames env done, b.getPlugin name = b₀.getPlugin name
  sequences : ∀ config ∈ done, typeOf env config = "sequence" → ∃ id ids steps,
    b.getPlugin config.effectiveName = some id ∧ b.objects[id]? = some (.sequence config.tag ids) ∧
    declared factories b₀.known b₀.getLeaf config = some steps ∧
    List.Forall₂ (SequenceStep.Rel (Linked b.objects fun name =>
      if name ∈ sequenceNames env (before config configs) then b.getPlugin name else b₀.getPlugin name))
      steps ids

theorem rebuilt_nil (hb : b₀.Valid) : Rebuilt env factories configs b₀ [] b₀ where
  valid := hb
  grown := List.prefix_rfl
  fresh := nofun
  other := fun _ _ => rfl
  sequences := nofun

theorem Rebuilt.known (hbuilt : Built env factories configs b₀) (h : Rebuilt env factories configs b₀ done b)
    (hsub : done ⊆ configs) : b.known = b₀.known := by
  funext name
  rw [PluginBuilder.known, PluginBuilder.known]
  by_cases hname : name ∈ sequenceNames env done
  · obtain ⟨id, hid, -⟩ := h.fresh name hname
    obtain ⟨config, hconfig, htype, rfl⟩ := mem_sequenceNames.mp hname
    obtain ⟨id₀, hid₀, -⟩ := hbuilt.made config (hsub hconfig) _ (create_of_sequence htype)
    rw [hid, hid₀]
    rfl
  · rw [h.other name hname]

theorem Rebuilt.getLeaf (hbuilt : Built env factories configs b₀) (h : Rebuilt env factories configs b₀ done b)
    (hsub : done ⊆ configs) : b.getLeaf = b₀.getLeaf := by
  funext name
  rw [PluginBuilder.getLeaf, PluginBuilder.getLeaf]
  by_cases hname : name ∈ sequenceNames env done
  · obtain ⟨config, hconfig, htype, rfl⟩ := mem_sequenceNames.mp hname
    obtain ⟨id, ids, steps, hid, hobject, -⟩ := h.sequences config hconfig htype
    obtain ⟨id₀, hid₀, hobject₀⟩ := hbuilt.made config (hsub hconfig) _ (create_of_sequence htype)
    rw [hid, hid₀, Option.bind_some, Option.bind_some, hobject, hobject₀]
  · rw [h.other name hname]
    cases hid : b₀.getPlugin name with
    | none => rfl
    | some id =>
      have hget := List.getElem?_eq_getElem (hbuilt.valid name id hid)
      rw [Option.bind_some, Option.bind_some, hget, getElem?_mono h.grown hget]

theorem Rebuilt.skip (h : Rebuilt env factories configs b₀ done b) (htype : typeOf env config ≠ "sequence") :
    Rebuilt env factories configs b₀ (done ++ [config]) b := by
  have hnames : sequenceNames env (done ++ [config]) = sequenceNames env done := by
    rw [sequenceNames_append, sequenceNames_singleton, if_neg htype, List.append_nil]
  refine ⟨h.valid, h.grown, ?_, ?_, fun c hc hctype => ?_⟩
  · rw [hnames]
    exact h.fresh
  · rw [hnames]
    exact h.other
  · rcases List.mem_append.mp hc with hc | hc
    · exact h.sequences c hc hctype
    · rw [List.mem_singleton.mp hc] at hctype
      exact absurd hctype htype

/-- A sequence that is registered anew gets what the registry has when its turn comes. -/
theorem Rebuilt.step (hconfigs : configs = done ++ config :: rest)
    (hne : ∀ c ∈ done, c.effectiveName ≠ config.effectiveName) (htype : typeOf env config = "sequence")
    (h : Rebuilt env factories configs b₀ done b) {ids : List (SequenceStep Nat)}
    {steps : List (SequenceStep Action)}
    (hdeclared : declared factories b₀.known b₀.getLeaf config = some steps) (hextends : b.Extends b')
    (hsteps : List.Forall₂ (SequenceStep.Rel (Linked b'.objects b.getPlugin)) steps ids) :
    Rebuilt env factories configs b₀ (done ++ [config])
      (b'.register config.effectiveName (.sequence config.tag ids)) := by
  have hnames : sequenceNames env (done ++ [config]) = sequenceNames env done ++ [config.effectiveName] := by
    rw [sequenceNames_append, sequenceNames_singleton, if_pos htype]
  have hnotin : config.effectiveName ∉ sequenceNames env done := by
    rw [mem_sequenceNames]
    rintro ⟨c, hc, -, heq⟩
    exact hne c hc heq
  have hother : ∀ {name}, name ≠ config.effectiveName →
      (b'.register config.effectiveName (.sequence config.tag ids)).getPlugin name = b.getPlugin name :=
    fun hname => (getPlugin_register_of_ne b' _ hname).trans (hextends.getPlugin _)
  have hgrown := hextends.objects.trans (prefix_register b' config.effectiveName (.sequence config.tag ids))
  have hlength : b₀.objects.length ≤ b'.objects.length :=
    Nat.le_trans h.grown.length_le hextends.objects.length_le
  have hself := getPlugin_register_self b' config.effectiveName (.sequence config.tag ids)
  refine ⟨(h.valid.of_extends hextends).register _ _, h.grown.trans hgrown, fun name hname => ?_,
    fun name hname => ?_, fun c hc hctype => ?_⟩
  · rw [hnames, List.mem_append, List.mem_singleton] at hname
    rcases hname with hname | rfl
    · rw [hother (fun heq => hnotin (heq ▸ hname))]
      exact h.fresh name hname
    · exact ⟨_, hself, hlength⟩
  · rw [hnames, List.mem_append, List.mem_singleton, not_or] at hname
    rw [hother hname.2, h.other name hname.1]
  · rcases List.mem_append.mp hc with hc | hc
    · obtain ⟨id, ids', steps', hid, hobject, hdeclared', hsteps'⟩ := h.sequences c hc hctype
      refine ⟨id, ids', steps', (hother (hne c hc)).trans hid, getElem?_mono hgrown hobject,
        hdeclared', hsteps'.imp fun s t hrel => hrel.imp fun action id hlinked => ?_⟩
      refine Linked.mono hgrown action id ?_
      cases action with
      | leaf l => exact hlinked
      | fallback names => exact hlinked
      | named name =>
        change (if _ then _ else _) = _ at hlinked ⊢
        by_cases hname : name ∈ sequenceNames env (before c configs)
        · rw [if_pos hname] at hlinked ⊢
          rw [hother, hlinked]
          obtain ⟨c', hc', -, rfl⟩ := mem_sequenceNames.mp hname
          rw [hconfigs] at hc'
          exact hne c' (mem_done_of_mem_before hc hc')
        · rwa [if_neg hname] at hlinked ⊢
    · rw [List.mem_singleton.mp hc]
      refine ⟨_, ids, steps, hself, getElem?_register_self _ _ _, hdeclared,
        hsteps.imp fun s t hrel => hrel.imp fun action id hlinked => ?_⟩
      refine Linked.mono (prefix_register _ _ _) action id ?_
      cases action with
      | leaf l => exact hlinked
      | fallback names => exact hlinked
      | named name =>
        change (if _ then _ else _) = _
        rw [hconfigs, before_of_not_mem hne]
        by_cases hname : name ∈ sequenceNames env done
        · rw [if_pos hname, hother fun heq => hnotin (heq ▸ hname)]
          exact hlinked
        · rw [if_neg hname, ← h.other name hname]
          exact hlinked

/-- The first pass succeeds if every sequence can be parsed, whatever the order. -/
theorem rebuildAll_spec (hbuilt : Built env factories configs b₀)
    (hnodup : (configs.map (·.effectiveName)).Nodup) (hconfigs : configs = done ++ rest)
    (h : Rebuilt env factories configs b₀ done b) :
    ((∀ config ∈ rest, typeOf env config = "sequence" →
        declared factories b₀.known b₀.getLeaf config ≠ none) ∧
      ∃ b', rebuildAll env factories rest b = (.ok (), b') ∧ Rebuilt env factories configs b₀ configs b') ∨
    ((∃ config ∈ rest, typeOf env config = "sequence" ∧
        declared factories b₀.known b₀.getLeaf config = none) ∧
      ∃ e b', rebuildAll env factories rest b = (.error e, b')) := by
  induction rest generalizing done b with
  | nil =>
    rw [List.append_nil] at hconfigs
    subst hconfigs
    exact .inl ⟨nofun, b, rfl, h⟩
  | cons config rest ih =>
    have hsub : done ⊆ configs := by
      rw [hconfigs]
      exact List.subset_append_left _ _
    have hne : ∀ c ∈ done, c.effectiveName ≠ config.effectiveName := by
      rw [hconfigs, List.map_append, List.nodup_append] at hnodup
      exact fun c hc => hnodup.2.2 _ (List.mem_map_of_mem hc) _ List.mem_cons_self
    have hnext : configs = (done ++ [config]) ++ rest := by rw [hconfigs, List.append_assoc]; rfl
    rw [rebuildAll]
    by_cases htype : typeOf env config = "sequence"
    · rw [if_pos htype]
      rcases rebuild_spec factories h.valid config with ⟨hnone, e, herror⟩ |
        ⟨steps, ids, b', hdeclared, hextends, hok, hsteps⟩
      · rw [h.known hbuilt hsub, h.getLeaf hbuilt hsub] at hnone
        rw [herror]
        exact .inr ⟨⟨config, List.mem_cons_self, htype, hnone⟩, e, b, rfl⟩
      · rw [h.known hbuilt hsub, h.getLeaf hbuilt hsub] at hdeclared
        rw [hok]
        refine (ih hnext (h.step hconfigs hne htype hdeclared hextends hsteps)).imp ?_ ?_
        · rintro ⟨hall, hresult⟩
          refine ⟨fun c hc hctype => ?_, hresult⟩
          rcases List.mem_cons.mp hc with rfl | hc
          · rw [hdeclared]
            nofun
          · exact hall c hc hctype
        · rintro ⟨⟨c, hc, hbad⟩, hresult⟩
          exact ⟨⟨c, List.mem_cons_of_mem _ hc, hbad⟩, hresult⟩
    · rw [if_neg htype]
      refine (ih hnext (h.skip htype)).imp ?_ ?_
      · rintro ⟨hall, hresult⟩
        refine ⟨fun c hc hctype => ?_, hresult⟩
        rcases List.mem_cons.mp hc with rfl | hc
        · exact absurd hctype htype
        · exact hall c hc hctype
      · rintro ⟨⟨c, hc, hbad⟩, hresult⟩
        exact ⟨⟨c, List.mem_cons_of_mem _ hc, hbad⟩, hresult⟩

/-! ### Fallbacks -/

/-- The plugins at some addresses have their children, and nothing else has changed. -/
structure Resolves (b : PluginBuilder) (ids : List Nat) (b' : PluginBuilder) : Prop where
  plugins : b'.plugins = b.plugins
  objects : ∀ id, b'.objects[id]? =
    (b.objects[id]?).map fun object => if id ∈ ids then resolveChildren b.plugins object else object

theorem resolveChildren_idem (registry : AList fun _ : String => Nat) (object : PluginObject) :
    resolveChildren registry (resolveChildren registry object) = resolveChildren registry object := by
  cases object with
  | leaf l => rfl
  | sequence tag steps => rfl
  | fallback plugins pending errorOnly => simp [resolveChildren]

theorem resolves_nil (b : PluginBuilder) : Resolves b [] b := by
  refine ⟨rfl, fun id => ?_⟩
  simp

theorem resolves_resolveAt (b : PluginBuilder) (id : Nat) : Resolves b [id] (b.resolveAt id) := by
  refine ⟨rfl, fun id' => ?_⟩
  rw [resolveAt]
  dsimp only
  rw [List.getElem?_modify]
  by_cases hid : id = id'
  · simp [hid]
  · have hid' : ¬ id' = id := fun h => hid h.symm
    simp [hid, hid']

theorem Resolves.trans {ids ids' : List Nat} (h : Resolves b ids b') (h' : Resolves b' ids' b'') :
    Resolves b (ids ++ ids') b'' := by
  refine ⟨h'.plugins.trans h.plugins, fun id => ?_⟩
  rw [h'.objects, h.objects, Option.map_map, h.plugins]
  congr 1
  funext object
  simp only [Function.comp_apply, List.mem_append]
  by_cases hid : id ∈ ids
  · by_cases hid' : id ∈ ids'
    · simp only [hid, hid', if_true, or_self, resolveChildren_idem]
    · simp only [hid, hid', if_true, if_false, or_false]
  · simp only [hid, if_false, false_or]

theorem Resolves.sequence {ids : List Nat} {id : Nat} {tag : Option String}
    {steps : List (SequenceStep Nat)} (h : Resolves b ids b')
    (hobject : b.objects[id]? = some (.sequence tag steps)) :
    b'.objects[id]? = some (.sequence tag steps) := by
  rw [h.objects, hobject, Option.map_some]
  split <;> rfl

theorem Resolves.leaf {ids : List Nat} {id : Nat} {l : Leaf} (h : Resolves b ids b')
    (hobject : b.objects[id]? = some (.leaf l)) : b'.objects[id]? = some (.leaf l) := by
  rw [h.objects, hobject, Option.map_some]
  split <;> rfl

theorem Resolves.getPlugin {ids : List Nat} (h : Resolves b ids b') (name : String) :
    b'.getPlugin name = b.getPlugin name := by
  rw [PluginBuilder.getPlugin, h.plugins, PluginBuilder.getPlugin]

theorem Resolves.getLeaf {ids : List Nat} (h : Resolves b ids b') : b'.getLeaf = b.getLeaf := by
  funext name
  rw [PluginBuilder.getLeaf, PluginBuilder.getLeaf, h.getPlugin]
  cases b.getPlugin name with
  | none => rfl
  | some id =>
    rw [Option.bind_some, Option.bind_some, h.objects]
    cases b.objects[id]? with
    | none => rfl
    | some object =>
      rw [Option.map_some]
      by_cases hid : id ∈ ids
      · rw [if_pos hid]
        cases object <;> rfl
      · rw [if_neg hid]

theorem Resolves.known {ids : List Nat} (h : Resolves b ids b') : b'.known = b.known := by
  funext name
  rw [PluginBuilder.known, PluginBuilder.known, h.getPlugin]

theorem resolves_resolveFallbacks (configs : List PluginConfig) (b : PluginBuilder) :
    ∃ ids, Resolves b ids (resolveFallbacks env configs b) ∧
      ∀ config ∈ configs, typeOf env config = "fallback" →
        ∀ id, b.getPlugin config.effectiveName = some id → id ∈ ids := by
  induction configs generalizing b with
  | nil => exact ⟨[], resolves_nil b, nofun⟩
  | cons config configs ih =>
    have hone : ∃ ids b', Resolves b ids b' ∧
        resolveFallbacks env (config :: configs) b = resolveFallbacks env configs b' ∧
        (typeOf env config = "fallback" →
          ∀ id, b.getPlugin config.effectiveName = some id → id ∈ ids) := by
      rw [resolveFallbacks, List.foldl_cons]
      by_cases htype : typeOf env config = "fallback"
      · rw [if_pos htype]
        cases hid : b.getPlugin config.effectiveName with
        | none => exact ⟨[], b, resolves_nil b, rfl, nofun⟩
        | some id =>
          refine ⟨[id], b.resolveAt id, resolves_resolveAt b id, rfl, fun _ id' hid' => ?_⟩
          rw [← Option.some.inj hid']
          exact List.mem_singleton_self _
      · rw [if_neg htype]
        exact ⟨[], b, resolves_nil b, rfl, fun h => absurd h htype⟩
    obtain ⟨ids, b', hresolves, heq, hmem⟩ := hone
    obtain ⟨ids', hrest, hmem'⟩ := ih b'
    rw [heq]
    refine ⟨ids ++ ids', hresolves.trans hrest, fun c hc htype id hid => ?_⟩
    rcases List.mem_cons.mp hc with rfl | hc
    · exact List.mem_append_left _ (hmem htype id hid)
    · exact List.mem_append_right _ (hmem' c hc htype id ((hresolves.getPlugin _).trans hid))

private theorem resolves_foldl_resolveAt (steps : List (SequenceStep Nat)) (b : PluginBuilder) :
    Resolves b (steps.map (·.action)) (steps.foldl (fun b step => b.resolveAt step.action) b) := by
  induction steps generalizing b with
  | nil => exact resolves_nil b
  | cons step steps ih => exact (resolves_resolveAt b step.action).trans (ih _)

private theorem resolves_foldl_embedded (addresses : List Nat) (b : PluginBuilder) :
    ∃ ids, Resolves b ids (addresses.foldl resolveFallbackChildren b) ∧
      ∀ address ∈ addresses, ∀ tag steps, b.objects[address]? = some (.sequence tag steps) →
        ∀ step ∈ steps, step.action ∈ ids := by
  induction addresses generalizing b with
  | nil => exact ⟨[], resolves_nil b, nofun⟩
  | cons address addresses ih =>
    have hone : ∃ ids, Resolves b ids (b.resolveFallbackChildren address) ∧
        ∀ tag steps, b.objects[address]? = some (.sequence tag steps) → ∀ step ∈ steps, step.action ∈ ids := by
      rw [resolveFallbackChildren]
      split
      · rename_i tag steps hobject
        refine ⟨_, resolves_foldl_resolveAt steps b, fun tag' steps' h step hstep => ?_⟩
        cases hobject.symm.trans h
        exact List.mem_map_of_mem hstep
      · rename_i hne
        exact ⟨[], resolves_nil b, fun tag steps h => absurd h (hne tag steps)⟩
    obtain ⟨ids, hresolves, hmem⟩ := hone
    obtain ⟨ids', hrest, hmem'⟩ := ih (b.resolveFallbackChildren address)
    refine ⟨ids ++ ids', hresolves.trans hrest, fun a ha tag steps hobject step hstep => ?_⟩
    rcases List.mem_cons.mp ha with rfl | ha
    · exact List.mem_append_left _ (hmem tag steps hobject step hstep)
    · exact List.mem_append_right _ (hmem' a ha tag steps (hresolves.sequence hobject) step hstep)

theorem resolves_resolveEmbedded (b : PluginBuilder) :
    ∃ ids, Resolves b ids (resolveEmbedded b) ∧
      ∀ name id tag steps, b.getPlugin name = some id → b.objects[id]? = some (.sequence tag steps) →
        ∀ step ∈ steps, step.action ∈ ids := by
  obtain ⟨ids, hresolves, hmem⟩ := resolves_foldl_embedded (b.plugins.entries.map Sigma.snd) b
  refine ⟨ids, hresolves, fun name id tag steps hid => hmem id ?_ tag steps⟩
  have hentry : (⟨name, id⟩ : Sigma fun _ : String => Nat) ∈ b.plugins.entries :=
    AList.mem_lookup_iff.mp hid
  exact List.mem_map_of_mem hentry

/-- What the builder comes to: the first pass has gone through everything, and every registered fallback and every fallback of a step has its children. -/
theorem load_spec (hnodup : (configs.map (·.effectiveName)).Nodup)
    (hok : (load env factories configs).1 = .ok ()) :
    ∃ b ids, Rebuilt env factories configs (buildAll env factories configs) configs b ∧
      Resolves b ids (load env factories configs).2 ∧
      (∀ config ∈ configs, typeOf env config = "fallback" →
        ∀ id, b.getPlugin config.effectiveName = some id → id ∈ ids) ∧
      ∀ name id tag steps, b.getPlugin name = some id → b.objects[id]? = some (.sequence tag steps) →
        ∀ step ∈ steps, step.action ∈ ids := by
  have hbuilt : Built env factories configs (buildAll env factories configs) := built_buildAll hnodup
  rw [load, resolveReferences] at hok ⊢
  rcases rebuildAll_spec hbuilt hnodup (List.nil_append _).symm (rebuilt_nil hbuilt.valid) with
    ⟨-, b, hb, hrebuilt⟩ | ⟨-, e, b, hb⟩
  · rw [hb]
    obtain ⟨ids, hfallbacks, hmem⟩ := resolves_resolveFallbacks configs b
    obtain ⟨ids', hembedded, hmem'⟩ := resolves_resolveEmbedded (resolveFallbacks env configs b)
    refine ⟨b, ids ++ ids', hrebuilt, hfallbacks.trans hembedded, ?_, ?_⟩
    · exact fun config hconfig htype id hid => List.mem_append_left _ (hmem config hconfig htype id hid)
    · intro name id tag steps hid hobject step hstep
      exact List.mem_append_right _ (hmem' name id tag steps ((hfallbacks.getPlugin name).trans hid)
        (hfallbacks.sequence hobject) step hstep)
  · rw [hb] at hok
    cases hok

/-- Whether the references can be resolved does not depend on the order. -/
theorem load_ok_iff (hnodup : (configs.map (·.effectiveName)).Nodup) :
    (load env factories configs).1 = .ok () ↔
      ∀ config ∈ configs, typeOf env config = "sequence" →
        declared factories (buildAll env factories configs).known (buildAll env factories configs).getLeaf
          config ≠ none := by
  have hbuilt : Built env factories configs (buildAll env factories configs) := built_buildAll hnodup
  rw [load, resolveReferences]
  rcases rebuildAll_spec hbuilt hnodup (List.nil_append _).symm (rebuilt_nil hbuilt.valid) with
    ⟨hall, b, hb, -⟩ | ⟨⟨config, hconfig, htype, hnone⟩, e, b, hb⟩
  · rw [hb]
    exact ⟨fun _ => hall, fun _ => rfl⟩
  · rw [hb]
    exact ⟨nofun, fun hall => absurd hnone (hall config hconfig htype)⟩

end PluginBuilder

end Lazydns
