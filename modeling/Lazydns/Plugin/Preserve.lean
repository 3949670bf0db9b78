import Lazydns.Plugin.Sequence

/-!
# What every plugin run keeps

A property of contexts that every plugin of a pipeline keeps is kept by the pipeline: the sequences, the jumps and the fallbacks in between only touch the control-flow keys and the trace. What is known of the runs from such contexts may be anything that goes through the sequencing of runs, and `Run.Closed` says that it does. `Run.Within` is one such property: it bounds what a run does, whatever other requests do to the shared state meanwhile.
-/

namespace Lazydns

open Dns

/-- The control-flow keys of the metadata map. -/
def controlKeys : List String := [RETURN_FLAG, "jump_target", "goto_label"]

/-- A property of contexts that does not depend on the control-flow keys or on which steps have run. -/
structure ControlFree (P : Context → Prop) : Prop where
  record : ∀ ctx tag index, P ctx → P (ctx.record (.step tag index))
  setFlag : ∀ ctx value, P ctx → P (ctx.setMetadata RETURN_FLAG value)
  remove : ∀ ctx key, key ∈ controlKeys → P ctx → P (ctx.removeMetadata key)

/-- What is known of runs from contexts with `P` is known of one after the other. -/
structure Run.Sequential (P : Context → Prop) (V : Run → Prop) : Prop where
  done : ∀ {ctx}, P ctx → V (.done ctx)
  andThen : ∀ {p : Run} {k : Context → Run}, V p → (∀ ctx, P ctx → V (k ctx)) → V (.andThen p k)

/-- What is known of runs from contexts with `P` is known of all ways to combine them. -/
structure Run.Closed (P : Context → Prop) (V : Run → Prop) : Prop extends Run.Sequential P V where
  outOfFuel : ∀ {ctx}, P ctx → V (.fail .outOfFuel ctx)
  bind : ∀ {p : Run} {k : Outcome → Run}, V p → (∀ r, P r.2 → V (k r)) → V (p >>= k)

namespace Run

variable {I : World → Prop} {G : World → World → Prop} {P : Context → Prop} {E : Stop → Prop}

/-- The steps of a run are in `G` while every state is in `I`; it ends in a context with `P`, and if it stops early, for a reason in `E`. -/
def Within (I : World → Prop) (G : World → World → Prop) (P : Context → Prop) (E : Stop → Prop)
    (p : Run) : Prop :=
  Proc.Within I G (fun r => P r.2 ∧ ∀ stop, r.1 = .error stop → E stop) p

theorem within_done {ctx : Context} (h : P ctx) : (done ctx).Within I G P E :=
  ⟨h, fun _ hstop => nomatch hstop⟩

theorem within_fail {stop : Stop} {ctx : Context} (h : P ctx) (hstop : E stop) :
    (fail stop ctx).Within I G P E := by
  refine ⟨h, fun stop' heq => ?_⟩
  cases heq
  exact hstop

theorem within_step {f : World → Context × World}
    (h : ∀ w, I w → G w (f w).2 ∧ P (f w).1) : (step f).Within I G P E := by
  intro w hw
  exact ⟨(h w hw).1, (h w hw).2, fun _ hstop => nomatch hstop⟩

theorem within_andThen {p : Run} {k : Context → Run} (hp : p.Within I G P E)
    (hk : ∀ ctx, P ctx → (k ctx).Within I G P E) : (andThen p k).Within I G P E := by
  refine Proc.Within.bind hp ?_
  rintro ⟨result, ctx⟩ ⟨hctx, hstop⟩
  cases result with
  | ok u => exact hk ctx hctx
  | error stop => exact within_fail hctx (hstop stop rfl)

theorem within_sequential : Sequential P (Run.Within I G P E) where
  done := within_done
  andThen := within_andThen

theorem within_closed (hfuel : E .outOfFuel) : Closed P (Run.Within I G P E) where
  toSequential := within_sequential
  outOfFuel := fun h => within_fail h hfuel
  bind := fun hp hk => Proc.Within.bind hp fun r hr => hk r hr.1

end Run

/-- Every plugin without children in a plugin, at any depth, satisfies `L`. -/
inductive Plugin.All (L : Leaf → Prop) : Plugin → Prop
  | leaf {l : Leaf} (h : L l) : Plugin.All L (.leaf l)
  | sequence {tag : Option String} {steps : List (SequenceStep Plugin)}
      (h : ∀ step ∈ steps, Plugin.All L step.action) : Plugin.All L (.sequence tag steps)
  | fallback {children : List Plugin} {errorOnly : Bool}
      (h : ∀ child ∈ children, Plugin.All L child) : Plugin.All L (.fallback children errorOnly)

/-- Every plugin without children in a registry satisfies `L`. -/
def Registry.All (L : Leaf → Prop) (reg : Registry) : Prop :=
  ∀ name plugin, reg.lookup name = some plugin → plugin.All L

theorem Plugin.All.mono {L L' : Leaf → Prop} (hL : ∀ l, L l → L' l) {p : Plugin} (h : p.All L) :
    p.All L' := by
  induction h with
  | leaf h => exact .leaf (hL _ h)
  | sequence h ih => exact .sequence ih
  | fallback h ih => exact .fallback ih

/-- What every plugin without children satisfies, every plugin is built from. -/
theorem Plugin.all_of_forall {L : Leaf → Prop} (h : ∀ l, L l) : ∀ p : Plugin, p.All L
  | .leaf l => .leaf (h l)
  | .sequence _ _ => .sequence fun step _ => Plugin.all_of_forall h step.action
  | .fallback _ _ => .fallback fun child _ => Plugin.all_of_forall h child
termination_by p => sizeOf p
decreasing_by
  · rename_i hstep
    have hlt := List.sizeOf_lt_of_mem hstep
    cases step <;> simp_all [SequenceStep.action] <;> omega
  · rename_i hchild
    have hlt := List.sizeOf_lt_of_mem hchild
    simp
    omega

theorem Registry.all_of_forall {L : Leaf → Prop} (h : ∀ l, L l) (reg : Registry) : reg.All L :=
  fun _ plugin _ => plugin.all_of_forall h

section

variable {env : Env} {reg : Registry} {P : Context → Prop} {V : Run → Prop}
  {exec : Plugin → Context → Run}

/-- The runs of a plugin from the contexts with `P` are in `V`. -/
def Leaf.Runs (env : Env) (P : Context → Prop) (V : Run → Prop) (l : Leaf) : Prop :=
  ∀ ctx, P ctx → V (l.execute env ctx)

theorem jumpLoop_closed (hP : ControlFree P) (hV : Run.Closed P V)
    (hexec : ∀ name plugin, reg.lookup name = some plugin → ∀ ctx, P ctx → V (exec plugin ctx)) :
    ∀ rounds ctx, P ctx → V (jumpLoop reg exec rounds ctx) := by
  intro rounds
  induction rounds with
  | zero =>
    intro ctx hctx
    rw [jumpLoop]
    split
    · exact hV.outOfFuel hctx
    · exact hV.done hctx
  | succ rounds ih =>
    intro ctx hctx
    rw [jumpLoop]
    split
    · cases htarget : ctx.getString "jump_target" with
      | none => exact hV.done hctx
      | some target =>
        have hcleared : P ((ctx.removeMetadata "jump_target").removeMetadata RETURN_FLAG) :=
          hP.remove _ _ (by decide) (hP.remove _ _ (by decide) hctx)
        simp only
        split
        · rename_i plugin hplugin
          obtain ⟨-, hlookup⟩ := Option.ite_none_right_eq_some.mp hplugin
          refine hV.andThen (hexec target plugin hlookup _ hcleared) fun ctx' hctx' => ?_
          apply ih
          cases Context.getBool _ RETURN_FLAG with
          | some flag => exact hP.setFlag _ _ hctx'
          | none => exact hP.remove _ _ (by decide) hctx'
        · exact ih _ hcleared
    · exact hV.done hctx

theorem runSteps_closed (hP : ControlFree P) (hV : Run.Closed P V) (rounds : Nat) (tag : Option String)
    (hreg : ∀ name plugin, reg.lookup name = some plugin → ∀ ctx, P ctx → V (exec plugin ctx)) :
    ∀ (steps : List (SequenceStep Plugin)) (index : Nat),
      (∀ step ∈ steps, ∀ ctx, P ctx → V (exec step.action ctx)) →
      ∀ ctx, P ctx → V (runSteps env reg exec rounds tag index steps ctx) := by
  intro steps
  induction steps with
  | nil => exact fun _ _ _ hctx => hV.done hctx
  | cons step rest ih =>
    intro index hsteps ctx hctx
    have hstep := hsteps step List.mem_cons_self
    rw [runSteps]
    refine hV.andThen ?_ fun ctx' hctx' =>
      hV.andThen (jumpLoop_closed hP hV hreg rounds ctx' hctx') fun ctx'' hctx'' => ?_
    · cases step with
      | exec plugin => exact hstep _ (hP.record _ _ _ hctx)
      | cond condition action =>
        rw [runStep]
        split
        · exact hstep _ (hP.record _ _ _ hctx)
        · exact hV.done hctx
    · split
      · exact hV.done (hP.setFlag _ _ hctx'')
      · split
        · exact hV.done hctx''
        · exact ih (index + 1) (fun s hs => hsteps s (List.mem_cons_of_mem _ hs)) _ hctx''

theorem runFallback_closed (hV : Run.Closed P V) (errorOnly : Bool) :
    ∀ children : List Plugin, (∀ child ∈ children, ∀ ctx, P ctx → V (exec child ctx)) →
      ∀ ctx, P ctx → V (runFallback exec errorOnly children ctx) := by
  intro children
  induction children with
  | nil => exact fun _ _ hctx => hV.done hctx
  | cons child rest ih =>
    intro hchildren ctx hctx
    have hrest := ih fun c hc => hchildren c (List.mem_cons_of_mem _ hc)
    rw [runFallback]
    refine hV.bind (hchildren child List.mem_cons_self ctx hctx) ?_
    rintro ⟨result, ctx'⟩ hctx'
    split
    · rename_i heq
      cases heq
      exact hV.outOfFuel hctx'
    · rename_i heq
      cases heq
      split
      · exact hrest _ hctx'
      · exact hV.done hctx'

/-- What is known of the runs of every plugin without children is known of every plugin of the pipeline. -/
theorem Plugin.execute_closed (hP : ControlFree P) (hV : Run.Closed P V)
    (hreg : reg.All (Leaf.Runs env P V)) :
    ∀ (fuel : Nat) (plugin : Plugin), plugin.All (Leaf.Runs env P V) →
      ∀ ctx, P ctx → V (plugin.execute env reg fuel ctx) := by
  intro fuel
  induction fuel with
  | zero =>
    intro plugin _ ctx hctx
    exact hV.outOfFuel hctx
  | succ fuel ih =>
    have hlookup : ∀ name plugin, reg.lookup name = some plugin →
        ∀ ctx, P ctx → V (plugin.execute env reg fuel ctx) :=
      fun name plugin h => ih plugin (hreg name plugin h)
    intro plugin hplugin ctx hctx
    cases hplugin with
    | leaf h => exact h ctx hctx
    | sequence h =>
      exact runSteps_closed hP hV fuel _ hlookup _ 0 (fun step hstep => ih _ (h step hstep)) ctx hctx
    | fallback h =>
      exact runFallback_closed hV _ _ (fun child hchild => ih child (h child hchild)) ctx hctx

end

section

variable {env : Env} {reg : Registry} {I : World → Prop} {G : World → World → Prop}
  {P : Context → Prop} {E : Stop → Prop}

/-- A plugin's run from a context with `P` stays within `G` and `P`. -/
def Leaf.Preserves (env : Env) (I : World → Prop) (G : World → World → Prop)
    (P : Context → Prop) (E : Stop → Prop) (l : Leaf) : Prop :=
  ∀ ctx, P ctx → (l.execute env ctx).Within I G P E

end

end Lazydns
