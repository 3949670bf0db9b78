import Mathlib.Data.Fintype.EquivFin
import Lazydns.Plugin.Costs
import Lazydns.Plugin.Validation
import Lazydns.Property.Order

/-!
# Whether requests come to an end

A plugin refers to others by its steps and children, and by the names of its jumps and gotos. Validation and the builder accept references in a circle, and a request that goes round runs for ever. If no plugin that the entry leads to leads back to itself, then what the entry leads to has a bound, and every request ends within it.
-/

namespace Lazydns

open Dns

/-! ### Relations without cycles -/

/-- Where a relation goes out of finitely many points only, and none that is reached reaches itself, there is no infinite path. -/
theorem acc_of_no_cycle {r : Nat → Nat → Prop} {bound x : Nat} (hbound : ∀ y z, r y z → y < bound)
    (hcycle : ∀ y, Relation.ReflTransGen r x y → ¬ Relation.TransGen r y y) :
    Acc (fun z y => r y z) x := by
  let below : Fin bound → Fin bound → Prop := fun z y => Relation.ReflTransGen r x y ∧ Relation.TransGen r y z
  have : IsTrans (Fin bound) below := ⟨fun _ _ _ h h' => ⟨h'.1, h'.2.trans h.2⟩⟩
  have : Std.Irrefl below := ⟨fun y h => hcycle y h.1 h.2⟩
  have hwf : WellFounded below := Finite.wellFounded_of_trans_of_irrefl below
  have hacc : ∀ y : Fin bound, Relation.ReflTransGen r x y → Acc (fun z y => r y z) y.1 := by
    intro y
    induction y using hwf.induction with
    | _ y ih =>
      refine fun hreached => Acc.intro _ fun z hz => ?_
      by_cases hlt : z < bound
      · exact ih ⟨z, hlt⟩ ⟨hreached, Relation.TransGen.single hz⟩ (hreached.tail hz)
      · exact Acc.intro _ fun z' hz' => absurd (hbound z z' hz') hlt
  by_cases hlt : x < bound
  · exact hacc ⟨x, hlt⟩ .refl
  · exact Acc.intro _ fun z hz => absurd (hbound x z hz) hlt

theorem not_transGen_of_rank {r : Nat → Nat → Prop} {rank : Nat → Nat} (h : ∀ y z, r y z → rank z < rank y)
    (y : Nat) : ¬ Relation.TransGen r y y := by
  have hlt : ∀ {z}, Relation.TransGen r y z → rank z < rank y := by
    intro z hz
    induction hz with
    | single hyz => exact h _ _ hyz
    | tail _ hyz ih => exact (h _ _ hyz).trans ih
  exact fun hy => Nat.lt_irrefl _ (hlt hy)

theorem exists_bound_of_forall {α : Type} {P : Nat → α → Prop} (hmono : ∀ {m n x}, m ≤ n → P m x → P n x)
    {xs : List α} (h : ∀ x ∈ xs, ∃ n, P n x) : ∃ n, ∀ x ∈ xs, P n x := by
  induction xs with
  | nil => exact ⟨0, nofun⟩
  | cons x xs ih =>
    obtain ⟨m, hm⟩ := h x List.mem_cons_self
    obtain ⟨n, hn⟩ := ih fun y hy => h y (List.mem_cons_of_mem _ hy)
    refine ⟨max m n, fun y hy => ?_⟩
    rcases List.mem_cons.mp hy with rfl | hy
    · exact hmono (Nat.le_max_left _ _) hm
    · exact hmono (Nat.le_max_right _ _) (hn y hy)

namespace PluginBuilder

variable {env : Env} {b : PluginBuilder}

/-! ### References -/

/-- The plugin at one address refers to the one at another: it holds it as a step or a child, or it can name it as the target of a jump or a goto. -/
def Refers (env : Env) (b : PluginBuilder) (id id' : Nat) : Prop :=
  match b.objects[id]? with
  | some (.leaf l) => ∃ name, l.Names env name ∧ b.getPlugin name = some id'
  | some (.sequence _ steps) => ∃ step ∈ steps, step.action = id'
  | some (.fallback plugins _ _) => id' ∈ plugins
  | none => False

/-- No plugin that the entry leads to leads back to itself. -/
def NoCycle (env : Env) (b : PluginBuilder) (entry : String) : Prop :=
  ∀ id id', b.getPlugin entry = some id → Relation.ReflTransGen (b.Refers env) id id' →
    ¬ Relation.TransGen (b.Refers env) id' id'

theorem lt_of_refers {id id' : Nat} (h : b.Refers env id id') : id < b.objects.length := by
  rw [Refers] at h
  cases hobject : b.objects[id]? with
  | none =>
    rw [hobject] at h
    exact h.elim
  | some object => exact (List.getElem?_eq_some_iff.mp hobject).1

/-- Unfolded as deep as that, the plugin at an address costs no more than `n`. -/
def Bounded (env : Env) (b : PluginBuilder) (n id : Nat) : Prop :=
  ∀ depth depth' reg, n ≤ depth → n ≤ depth' → b.Registers depth' reg → (b.unfold depth id).Costs env reg n

theorem Bounded.mono {m n id : Nat} (h : b.Bounded env m id) (hn : m ≤ n) : b.Bounded env n id :=
  fun depth depth' reg hd hd' hreg => (h depth depth' reg (hn.trans hd) (hn.trans hd') hreg).mono hn

/-- What leads to no cycle has a bound. -/
theorem bounded_of_acc {id : Nat} (hacc : Acc (fun id' id => b.Refers env id id') id) :
    ∃ n, b.Bounded env n id := by
  induction hacc with
  | intro id _ ih =>
    have hall : ∀ ids : List Nat, ∃ n, ∀ id' ∈ ids, b.Refers env id id' → b.Bounded env n id' := by
      refine fun ids => exists_bound_of_forall (fun hmn h hrefers => (h hrefers).mono hmn) fun id' _ => ?_
      by_cases hrefers : b.Refers env id id'
      · obtain ⟨n, hn⟩ := ih id' hrefers
        exact ⟨n, fun _ => hn⟩
      · exact ⟨0, fun h => absurd h hrefers⟩
    simp only [Refers] at hall
    cases hobject : b.objects[id]? with
    | none =>
      refine ⟨1, fun depth depth' reg hd _ _ => ?_⟩
      obtain ⟨d, rfl⟩ := Nat.exists_eq_add_of_le' hd
      rw [unfold, hobject]
      exact Plugin.Costs.fallback (n := 0) (fun _ h => by cases h) Nat.one_pos
    | some object =>
      simp only [hobject] at hall
      cases object with
      | leaf l =>
        obtain ⟨n, hn⟩ := hall (b.plugins.entries.map Sigma.snd)
        refine ⟨2 * n + 2, fun depth depth' reg hd hd' hreg => ?_⟩
        obtain ⟨d, rfl⟩ := Nat.exists_eq_add_of_le' (show 1 ≤ depth by omega)
        rw [unfold, hobject]
        refine .leaf (fun name p hname hp => ?_) (Nat.lt_succ_self _)
        rw [hreg name] at hp
        obtain ⟨id', hid', rfl⟩ := Option.map_eq_some_iff.mp hp
        have hentry : (⟨name, id'⟩ : Sigma fun _ : String => Nat) ∈ b.plugins.entries :=
          AList.mem_lookup_iff.mp hid'
        exact hn id' (List.mem_map_of_mem hentry) ⟨name, hname, hid'⟩ depth' depth' reg (by omega) (by omega) hreg
      | sequence tag steps =>
        obtain ⟨n, hn⟩ := hall (steps.map (·.action))
        refine ⟨steps.length * n + n + 1, fun depth depth' reg hd hd' hreg => ?_⟩
        obtain ⟨d, rfl⟩ := Nat.exists_eq_add_of_le' (show 1 ≤ depth by omega)
        rw [unfold, hobject]
        refine Plugin.Costs.sequence (n := n) (fun step hstep => ?_) (by rw [List.length_map]; omega)
        obtain ⟨s, hs, rfl⟩ := List.mem_map.mp hstep
        rw [SequenceStep.action_map]
        exact hn s.action (List.mem_map_of_mem hs) ⟨s, hs, rfl⟩ d depth' reg (by omega) (by omega) hreg
      | fallback plugins pending errorOnly =>
        obtain ⟨n, hn⟩ := hall plugins
        refine ⟨plugins.length * n + n + 1, fun depth depth' reg hd hd' hreg => ?_⟩
        obtain ⟨d, rfl⟩ := Nat.exists_eq_add_of_le' (show 1 ≤ depth by omega)
        rw [unfold, hobject]
        refine Plugin.Costs.fallback (n := n) (fun child hchild => ?_) (by rw [List.length_map]; omega)
        obtain ⟨id', hid', rfl⟩ := List.mem_map.mp hchild
        exact hn id' hid' hid' d depth' reg (by omega) (by omega) hreg

end PluginBuilder

/-! ### The handler -/

namespace PluginHandler

variable {env : Env} {reg : Registry}

/-- The run comes to an end, whatever other requests do meanwhile. -/
def Finishes (p : Proc World (Except Stop Message)) : Prop :=
  p.Within (fun _ => True) (fun _ _ => True) (· ≠ .error .outOfFuel)

theorem gotoLoop_pays {exec : Plugin → Context → Run} {fuel : Nat}
    (hexec : ∀ {p m t ctx}, p.Costs env reg m → t + m < fuel → ctx.Owes env reg t →
      (exec p ctx).Pays env reg (t + m)) :
    ∀ (rounds t : Nat) (ctx : Context), t < rounds → t ≤ fuel → ctx.Owes env reg t →
      (gotoLoop reg exec rounds ctx).Pays env reg t := by
  intro rounds
  induction rounds with
  | zero => exact fun t ctx ht => absurd ht (Nat.not_lt_zero t)
  | succ rounds ih =>
    intro t ctx hrounds hfuel hctx
    rw [gotoLoop]
    split
    · split
      · exact Run.pays_done hctx
      · rename_i target htarget
        obtain ⟨k, u, hku, hcosts, howes⟩ := hctx.take (by decide) htarget
        dsimp only
        split
        · rename_i plugin hlookup
          refine Run.pays_andThen (hexec (hcosts plugin hlookup) (by omega) howes) (by omega) fun ctx' hctx' => ?_
          exact (ih (u + k) ctx' (by omega) (by omega) hctx').mono (by omega)
        · exact Run.pays_done (howes.mono (by omega))
    · exact Run.pays_done hctx

theorem owes_initialContext (now : Nat) (entry : String) (req : RequestContext) :
    (initialContext now entry req).Owes env reg 0 := by
  have hnone : ∀ key ∈ transferKeys, (initialContext now entry req).getString key = none := by
    intro key hkey
    have hnew : ∀ key ∈ transferKeys, key ∉ initialKeys := by decide
    rw [Context.getString, initialContext_metadata now entry req (hnew key hkey)]
  exact ⟨0, 0, le_rfl, Context.due_of_none (hnone _ (by decide)) 0, Context.due_of_none (hnone _ (by decide)) 0⟩

/-- With more fuel than the entry plugin costs, a request comes to its end. -/
theorem handle_finishes {n fuel : Nat} {entry : String} (hfuel : n < fuel)
    (hentry : ∀ plugin, reg.lookup entry = some plugin → plugin.Costs env reg n) (req : RequestContext) :
    Finishes (handle env reg fuel entry req) := by
  have hrun : ∀ ctx : Context, ctx.Owes env reg 0 → (runEntry env reg fuel entry ctx).Pays env reg n := by
    intro ctx hctx
    rw [runEntry]
    refine Run.pays_andThen ?_ le_rfl
      (gotoLoop_pays (fun h => h.execute_pays fuel) fuel n · hfuel hfuel.le)
    split
    · rename_i plugin hplugin
      exact ((hentry plugin hplugin).execute_pays fuel (by omega) hctx).mono (by omega)
    · exact Run.pays_done (hctx.mono (Nat.zero_le n))
  have hprocess : (process env reg fuel entry req).Within (fun _ => True) (fun _ _ => True) (fun _ => True)
      (· ≠ .outOfFuel) := by
    refine Proc.Within.bind (Q := Context.Owes env reg 0)
      (Proc.within_atomic.mpr fun w _ => ⟨trivial, owes_initialContext w.now entry req⟩) fun ctx hctx => ?_
    refine Run.within_andThen (P := fun _ => True) ?_ fun ctx _ => ?_
    · exact Proc.Within.mono (hrun ctx hctx) (fun _ _ _ _ => trivial) fun _ hr => ⟨trivial, hr.2⟩
    · exact Proc.Within.mono (postProcess_succeeds env reg ctx) (fun _ _ _ _ => trivial) fun r hr =>
        ⟨trivial, fun stop hstop => (hr.2 stop hstop).elim⟩
  refine Proc.Within.bind hprocess fun r hr => ?_
  obtain ⟨result, ctx⟩ := r
  cases result with
  | ok u => rintro ⟨⟩
  | error stop => exact fun h => hr.2 stop rfl (by cases h; rfl)

end PluginHandler

/-! ### A sequence that goes to itself -/

/-- `GotoPlugin::quick_setup`, for the prefix `goto`. -/
def GotoPlugin.quickSetup (execStr : String) : Except Error Leaf :=
  let target := trim execStr
  if target = "" then .error (.config "goto exec action requires a label argument")
  else .ok (.plain (.goto ((stripPrefix "$" target).getD target)))

section

variable {env : Env} {reg : Registry} {name : String} {tag : Option String}

def gotoSequence (tag : Option String) (name : String) : Plugin :=
  .sequence tag [.exec (.leaf (.plain (.goto name)))]

theorem execute_gotoSequence (fuel : Nat) {ctx : Context} (hjump : ctx.metadata "jump_target" = none) :
    ∃ ctx', (gotoSequence tag name).execute env reg (fuel + 2) ctx = .done ctx' ∧
      ctx'.metadata "jump_target" = none ∧ ctx'.metadata "goto_label" = some (.string name) := by
  obtain ⟨ctx₁, hctx₁⟩ : ∃ ctx₁, ctx₁ = GotoPlugin.execute name (ctx.record (.step tag 0)) := ⟨_, rfl⟩
  have hjump₁ : ctx₁.metadata "jump_target" = none := by rw [hctx₁]; exact hjump
  have hgoto₁ : ctx₁.metadata "goto_label" = some (.string name) := by rw [hctx₁]; rfl
  refine ⟨ctx₁.setMetadata RETURN_FLAG (.bool true), ?_, hjump₁, hgoto₁⟩
  have hstep : runStep env (Plugin.execute env reg (fuel + 1)) tag 0 ctx
      (.exec (.leaf (.plain (.goto name)))) = .done ctx₁ := by rw [hctx₁]; rfl
  have hpending : ctx₁.hasMetadata "goto_label" = true := by rw [Context.hasMetadata, hgoto₁]; rfl
  rw [gotoSequence, Plugin.execute, runSteps, hstep, Run.andThen_done, jumpLoop_of_none _ _ hjump₁, Run.andThen_done,
    if_pos hpending]

/-- The goto loop comes back to the sequence in every round. -/
theorem gotoLoop_gotoSequence (hreg : reg.lookup name = some (gotoSequence tag name)) (fuel : Nat) :
    ∀ (rounds : Nat) (ctx : Context), ctx.metadata "jump_target" = none →
      ctx.metadata "goto_label" = some (.string name) →
      ∃ ctx', PluginHandler.gotoLoop reg (Plugin.execute env reg (fuel + 2)) rounds ctx =
        .fail .outOfFuel ctx' := by
  intro rounds
  induction rounds with
  | zero =>
    intro ctx _ hgoto
    have hpending : ctx.hasMetadata "goto_label" = true := by rw [Context.hasMetadata, hgoto]; rfl
    exact ⟨ctx, if_pos hpending⟩
  | succ rounds ih =>
    intro ctx hjump hgoto
    have hpending : ctx.hasMetadata "goto_label" = true := by rw [Context.hasMetadata, hgoto]; rfl
    have htarget : ctx.getString "goto_label" = some name := by rw [Context.getString, hgoto]
    obtain ⟨ctx', hexec, hjump', hgoto'⟩ := @execute_gotoSequence env reg name tag fuel
      ((ctx.removeMetadata "goto_label").removeMetadata RETURN_FLAG) hjump
    obtain ⟨ctx'', hloop⟩ := ih ctx' hjump' hgoto'
    refine ⟨ctx'', ?_⟩
    rw [PluginHandler.gotoLoop, if_pos hpending, htarget]
    dsimp only
    rw [hreg]
    dsimp only
    rw [hexec, Run.andThen_done, hloop]

/-- However many nested calls and rounds a request may make, it makes more. -/
theorem runEntry_gotoSequence (hreg : reg.lookup name = some (gotoSequence tag name)) (fuel : Nat) {ctx : Context}
    (hjump : ctx.metadata "jump_target" = none) :
    ∃ ctx', PluginHandler.runEntry env reg fuel name ctx = .fail .outOfFuel ctx' := by
  rw [PluginHandler.runEntry, hreg]
  dsimp only
  rcases fuel with _ | _ | fuel
  · exact ⟨ctx, rfl⟩
  · exact ⟨_, rfl⟩
  · obtain ⟨ctx', hexec, hjump', hgoto'⟩ := @execute_gotoSequence env reg name tag fuel ctx hjump
    rw [hexec, Run.andThen_done]
    exact gotoLoop_gotoSequence hreg fuel (fuel + 2) ctx' hjump' hgoto'

theorem handle_gotoSequence (hreg : reg.lookup name = some (gotoSequence tag name)) (fuel : Nat)
    (req : RequestContext) (w : World) :
    ((PluginHandler.handle env reg fuel name req).run w).1 = .error .outOfFuel := by
  have hjump : (PluginHandler.initialContext w.now name req).metadata "jump_target" = none :=
    PluginHandler.initialContext_metadata w.now name req (by decide)
  obtain ⟨ctx', hentry⟩ := @runEntry_gotoSequence env reg name tag hreg fuel _ hjump
  rw [PluginHandler.handle_run, PluginHandler.process_run, hentry, Run.andThen_fail]
  rfl

/-- Without nested calls a registered plugin cannot run at all. -/
theorem handle_zero {plugin : Plugin} (hreg : reg.lookup name = some plugin) (req : RequestContext) (w : World) :
    ((PluginHandler.handle env reg 0 name req).run w).1 = .error .outOfFuel := by
  rw [PluginHandler.handle_run, PluginHandler.process_run, PluginHandler.runEntry, hreg]
  rfl

end

/-! ### Configurations -/

namespace PluginBuilder

open PluginHandler Validation

/-- If nothing that the entry leads to leads back to itself, there is a number of nested calls and rounds within which every request comes to its end. -/
theorem requests_finish {env : Env} {factories : Factories} {configs : List PluginConfig} {entry : String}
    (hcycle : NoCycle env (load env factories configs).2 entry) :
    ∃ n, ∀ fuel ≥ n, ∀ req p, Processes env (load env factories configs).2 fuel entry req p → Finishes p := by
  obtain ⟨b, hb⟩ : ∃ b, (load env factories configs).2 = b := ⟨_, rfl⟩
  rw [hb] at hcycle ⊢
  cases hid : b.getPlugin entry with
  | none =>
    refine ⟨1, fun fuel hfuel req p hp => ?_⟩
    obtain ⟨reg, hreg, rfl⟩ := hp
    refine handle_finishes hfuel (fun plugin hplugin => ?_) req
    rw [hreg entry, hid] at hplugin
    cases hplugin
  | some id =>
    obtain ⟨n, hn⟩ := bounded_of_acc (acc_of_no_cycle (fun _ _ => lt_of_refers) fun id' => hcycle id id' hid)
    refine ⟨n + 1, fun fuel hfuel req p hp => ?_⟩
    obtain ⟨reg, hreg, rfl⟩ := hp
    refine handle_finishes hfuel (fun plugin hplugin => ?_) req
    rw [hreg entry, hid] at hplugin
    cases hplugin
    exact hn (fuel + 1) (fuel + 1) reg (by omega) (by omega) hreg

theorem noPlugin_sequence : (fun _ : String => (none : Option (PluginConfig → Except Error Leaf))) "sequence" = none := rfl

def gotoFactories : Factories where
  plugin := fun _ => none
  exec := fun execPrefix =>
    if execPrefix = "accept" then some fun _ => .ok (.plain .accept)
    else if execPrefix = "goto" then some GotoPlugin.quickSetup
    else none
  condition := fun _ conditionStr => .error ("Unknown condition: " ++ conditionStr)
  plugin_sequence := noPlugin_sequence

/-- In these plugins every reference leads to an address further down. -/
theorem refers_goto_sub {id id' : Nat}
    (h : (load (.answering (.ok .new)) gotoFactories [oneStep "sub" "accept", oneStep "main" "goto sub"]).2.Refers
      (.answering (.ok .new)) id id') : id' < id := by
  have hlt : id < 6 := lt_of_refers h
  match id, hlt with
  | 0, _ => exact absurd h (by rintro ⟨step, hstep, -⟩; cases hstep)
  | 1, _ => exact absurd h (by rintro ⟨step, hstep, -⟩; cases hstep)
  | 2, _ =>
    obtain ⟨name, hname, -⟩ := h
    exact absurd hname (Leaf.not_names (by decide) name)
  | 3, _ =>
    obtain ⟨step, hstep, rfl⟩ := h
    obtain rfl := List.mem_singleton.mp hstep
    decide
  | 4, _ =>
    obtain ⟨name, hname, hid⟩ := h
    obtain rfl := Leaf.names_goto.mp hname
    cases hid
    decide
  | 5, _ =>
    obtain ⟨step, hstep, rfl⟩ := h
    obtain rfl := List.mem_singleton.mp hstep
    decide

/-- A sequence that goes to another one comes to its end. -/
theorem requests_finish_goto_sub : let env := Env.answering (.ok .new)
    let configs := [oneStep "sub" "accept", oneStep "main" "goto sub"]
    (load env gotoFactories configs).2.getPlugin "main" = some 5 ∧
      ∃ n, ∀ fuel ≥ n, ∀ req p, Processes env (load env gotoFactories configs).2 fuel "main" req p →
        Finishes p :=
  ⟨rfl, requests_finish fun _ id' _ _ => @not_transGen_of_rank _ id (fun _ _ => refers_goto_sub) id'⟩

/-- A sequence that goes to itself is valid, and its references are resolved; a request to it never comes to an end. -/
theorem goto_main_never_finishes : let env := Env.answering (.ok .new)
    let configs := [oneStep "main" "goto main"]
    validatePlugins configs = .ok () ∧ (load env gotoFactories configs).1 = .ok () ∧
      ∀ fuel req p, Processes env (load env gotoFactories configs).2 fuel "main" req p →
        ∀ w, (p.run w).1 = .error .outOfFuel := by
  intro env configs
  refine ⟨rfl, rfl, fun fuel req p hp w => ?_⟩
  obtain ⟨reg, hreg, rfl⟩ := hp
  have hmain : reg.lookup "main" = some ((load env gotoFactories configs).2.unfold (fuel + 1) 2) := hreg "main"
  cases fuel with
  | zero => exact handle_zero hmain req w
  | succ fuel => exact @handle_gotoSequence env reg "main" (some "main") hmain (fuel + 1) req w

end PluginBuilder

end Lazydns
