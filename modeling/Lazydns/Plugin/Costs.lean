import Lazydns.Plugin.Frame
import Lazydns.Plugin.Sequence

/-!
# What a pipeline costs

Nothing in the code stops a sequence from jumping back to itself. `Plugin.Costs` bounds the nested calls and the rounds of the loops that a plugin can lead to, in its steps and its children as well as at the targets of the jumps and gotos that it makes: a plugin that leads back to itself has no bound. A pending jump or goto is a debt of what its target costs, wherever in the pipeline it is taken up, and a run never owes more afterwards than it owed before and cost.
-/

namespace Lazydns

open Dns

/-- The keys under which a plugin names the plugin that runs next. -/
def transferKeys : List String := ["jump_target", "goto_label"]

/-- The plugin can put the name under one of these keys, as `jump` and `goto` do and any plugin that is configured to write there. -/
def Leaf.Names (env : Env) (name : String) : Leaf → Prop
  | .plain p => ∃ ctx, ∃ key ∈ transferKeys, ctx.metadata key ≠ some (.string name) ∧
      (p.execute env ctx).metadata key = some (.string name)
  | _ => False

/-- A plugin with everything it leads to runs within `n` nested calls and rounds. -/
inductive Plugin.Costs (env : Env) (reg : Registry) : Nat → Plugin → Prop
  | leaf {m n : Nat} {l : Leaf} (h : ∀ name p, l.Names env name → reg.lookup name = some p → Costs env reg n p)
      (hm : 2 * n + 1 < m) : Costs env reg m (.leaf l)
  | sequence {m n : Nat} {tag : Option String} {steps : List (SequenceStep Plugin)}
      (h : ∀ step ∈ steps, Costs env reg n step.action) (hm : steps.length * n < m) :
      Costs env reg m (.sequence tag steps)
  | fallback {m n : Nat} {children : List Plugin} {errorOnly : Bool}
      (h : ∀ child ∈ children, Costs env reg n child) (hm : children.length * n < m) :
      Costs env reg m (.fallback children errorOnly)

variable {env : Env} {reg : Registry}

theorem Plugin.Costs.mono {m n : Nat} {p : Plugin} (h : p.Costs env reg m) (hn : m ≤ n) :
    p.Costs env reg n := by
  cases h with
  | leaf h hm => exact .leaf h (hm.trans_le hn)
  | sequence h hm => exact .sequence h (hm.trans_le hn)
  | fallback h hm => exact .fallback h (hm.trans_le hn)

/-! ### Debts -/

def Context.Due (env : Env) (reg : Registry) (key : String) (n : Nat) (ctx : Context) : Prop :=
  ∀ name, ctx.getString key = some name → ∃ k < n, ∀ p, reg.lookup name = some p → p.Costs env reg k

/-- The pending jump and the pending goto cost no more than `t` together. -/
def Context.Owes (env : Env) (reg : Registry) (t : Nat) (ctx : Context) : Prop :=
  ∃ a c, a + c ≤ t ∧ ctx.Due env reg "jump_target" a ∧ ctx.Due env reg "goto_label" c

variable {ctx ctx' : Context} {t t' n : Nat} {key : String}

theorem Context.getString_congr (heq : ctx'.metadata key = ctx.metadata key) :
    ctx'.getString key = ctx.getString key := by
  rw [getString, getString, heq]

theorem Context.Due.congr (h : ctx.Due env reg key n) (heq : ctx'.metadata key = ctx.metadata key) :
    ctx'.Due env reg key n := by
  intro name hname
  rw [Context.getString_congr heq] at hname
  exact h name hname

theorem Context.due_of_none (h : ctx.getString key = none) (n : Nat) : ctx.Due env reg key n := by
  intro name hname
  rw [h] at hname
  cases hname

theorem Context.Owes.mono (h : ctx.Owes env reg t) (ht : t ≤ t') : ctx.Owes env reg t' := by
  obtain ⟨a, c, hsum, hjump, hgoto⟩ := h
  exact ⟨a, c, hsum.trans ht, hjump, hgoto⟩

theorem Context.Owes.congr (h : ctx.Owes env reg t)
    (heq : ∀ key ∈ transferKeys, ctx'.metadata key = ctx.metadata key) : ctx'.Owes env reg t := by
  obtain ⟨a, c, hsum, hjump, hgoto⟩ := h
  exact ⟨a, c, hsum, hjump.congr (heq _ (by decide)), hgoto.congr (heq _ (by decide))⟩

theorem Context.Owes.setFlag (h : ctx.Owes env reg t) (value : MetaValue) :
    (ctx.setMetadata RETURN_FLAG value).Owes env reg t := by
  refine h.congr fun key hkey => ?_
  have hne : key ≠ RETURN_FLAG := fun heq => absurd (heq ▸ hkey) (by decide)
  rw [Context.setMetadata_metadata, Function.update_of_ne hne]

theorem Context.Owes.removeFlag (h : ctx.Owes env reg t) :
    (ctx.removeMetadata RETURN_FLAG).Owes env reg t := by
  refine h.congr fun key hkey => ?_
  have hne : key ≠ RETURN_FLAG := fun heq => absurd (heq ▸ hkey) (by decide)
  rw [Context.removeMetadata_metadata, Function.update_of_ne hne]

theorem Context.Owes.restore (h : ctx.Owes env reg t) (saved : Option Bool) :
    (restoreReturnFlag saved ctx).Owes env reg t := by
  cases saved with
  | some flag => exact h.setFlag _
  | none => exact h.removeFlag

/-- Taking up what is pending under one of the keys leaves less to pay than it costs. -/
theorem Context.Owes.take (h : ctx.Owes env reg t) (hkey : key ∈ transferKeys) {name : String}
    (hname : ctx.getString key = some name) :
    ∃ k u, k + u < t ∧ (∀ p, reg.lookup name = some p → p.Costs env reg k) ∧
      ((ctx.removeMetadata key).removeMetadata RETURN_FLAG).Owes env reg u := by
  obtain ⟨a, c, hsum, hjump, hgoto⟩ := h
  rcases List.mem_cons.mp hkey with rfl | hkey
  · obtain ⟨k, hk, hcosts⟩ := hjump name hname
    exact ⟨k, c, by omega, hcosts, 0, c, by omega, due_of_none rfl 0, hgoto.congr rfl⟩
  · obtain rfl := List.mem_singleton.mp hkey
    obtain ⟨k, hk, hcosts⟩ := hgoto name hname
    exact ⟨k, a, by omega, hcosts, a, 0, by omega, hjump.congr rfl, due_of_none rfl 0⟩

/-! ### Runs and what they owe -/

/-- The run does not run out of nested calls, and owes no more than `t` in the end, whatever other requests do meanwhile. -/
def Run.Pays (env : Env) (reg : Registry) (t : Nat) (p : Run) : Prop :=
  p.Within (fun _ => True) (fun _ _ => True) (Context.Owes env reg t) (· ≠ .outOfFuel)

namespace Run

theorem pays_done (h : ctx.Owes env reg t) : (done ctx).Pays env reg t := within_done h

theorem Pays.mono {p : Run} (h : p.Pays env reg t) (ht : t ≤ t') : p.Pays env reg t' :=
  Proc.Within.mono h (fun _ _ _ _ => trivial) fun _ hr => ⟨hr.1.mono ht, hr.2⟩

theorem pays_andThen {p : Run} {k : Context → Run} (hp : p.Pays env reg t) (ht : t ≤ t')
    (hk : ∀ ctx, ctx.Owes env reg t → (k ctx).Pays env reg t') : (andThen p k).Pays env reg t' := by
  refine Proc.Within.bind hp ?_
  rintro ⟨result, ctx⟩ ⟨hctx, hstop⟩
  cases result with
  | ok u => exact hk ctx hctx
  | error stop => exact within_fail (hctx.mono ht) (hstop stop rfl)

end Run

/-! ### Plugins without children -/

theorem Context.metadata_of_getString {name : String} (h : ctx.getString key = some name) :
    ctx.metadata key = some (.string name) := by
  rw [getString] at h
  split at h
  · rename_i value hvalue
    rw [hvalue, Option.some.inj h]
  · cases h

theorem not_mem_keys_of_transfer {l : Leaf} (hl : ∀ p, l ≠ .plain p) (hkey : key ∈ transferKeys) :
    key ∉ l.keys := by
  intro hmem
  cases l with
  | plain p => exact hl p rfl
  | cache i =>
    have hdisjoint : ∀ key ∈ transferKeys, key ∉ ["cache_checked", "response_from_cache", RETURN_FLAG] := by decide
    exact hdisjoint key hkey hmem
  | rateLimit i =>
    have hdisjoint : ∀ key ∈ transferKeys, key ∉ [RETURN_FLAG] := by decide
    exact hdisjoint key hkey hmem
  | _ => exact absurd hmem List.not_mem_nil

/-- A plugin that does not write under the two keys names nothing. -/
theorem Leaf.not_names {l : Leaf} (hl : ∀ key ∈ transferKeys, key ∉ l.keys) (name : String) :
    ¬ l.Names env name := by
  cases l with
  | plain p =>
    rintro ⟨ctx, key, hkey, hne, heq⟩
    have hgrows : ctx.Grows p.keys (p.execute env ctx) := p.execute_grows ctx
    exact hne ((hgrows.metadata key (hl key hkey)).symm.trans heq)
  | _ => exact id

theorem Leaf.names_goto {label name : String} :
    (Leaf.plain (.goto label)).Names env name ↔ name = label := by
  constructor
  · rintro ⟨ctx, key, hkey, hne, heq⟩
    rcases List.mem_cons.mp hkey with rfl | hkey
    · exact absurd heq hne
    · obtain rfl := List.mem_singleton.mp hkey
      cases heq
      rfl
  · rintro rfl
    exact ⟨Context.new .new, "goto_label", by decide, nofun, rfl⟩

/-- Under the two keys a plugin leaves what was there, or a name that it can put there. -/
theorem Leaf.execute_names (env : Env) (l : Leaf) (ctx : Context) :
    (l.execute env ctx).Within (fun _ => True) (fun _ _ => True)
      (fun ctx' => ∀ key ∈ transferKeys, ctx'.metadata key = ctx.metadata key ∨
        ∀ name, ctx'.getString key = some name → l.Names env name)
      (· ≠ .outOfFuel) := by
  by_cases hplain : ∃ p, l = .plain p
  · obtain ⟨p, rfl⟩ := hplain
    refine Run.within_done fun key hkey => ?_
    by_cases heq : (p.execute env ctx).metadata key = ctx.metadata key
    · exact .inl heq
    · refine .inr fun name hname => ⟨ctx, key, hkey, fun h => heq ?_, Context.metadata_of_getString hname⟩
      rw [h, Context.metadata_of_getString hname]
  · refine Proc.Within.mono (Leaf.execute_within (A := fun _ => True) (fun _ _ _ _ _ _ => trivial) l ctx)
      (fun _ _ _ _ => trivial) fun r hr => ⟨fun key hkey => .inl (hr.1.grows.metadata key ?_), hr.2⟩
    exact not_mem_keys_of_transfer (fun p h => hplain ⟨p, h⟩) hkey

theorem Leaf.execute_pays {m : Nat} {l : Leaf} (h : (Plugin.leaf l).Costs env reg m)
    (hctx : ctx.Owes env reg t) : (l.execute env ctx).Pays env reg (t + m) := by
  cases h with
  | @leaf _ n _ h hm =>
    refine Proc.Within.mono (Leaf.execute_names env l ctx) (fun _ _ _ _ => trivial) fun r hr => ⟨?_, hr.2⟩
    obtain ⟨a, c, hsum, hjump, hgoto⟩ := hctx
    have hdue : ∀ {key : String} {d : Nat}, key ∈ transferKeys → ctx.Due env reg key d →
        r.2.Due env reg key (d + n + 1) := by
      intro key d hkey hd name hname
      rcases hr.1 key hkey with heq | hnames
      · obtain ⟨k, hk, hcosts⟩ := hd.congr heq name hname
        exact ⟨k, by omega, hcosts⟩
      · exact ⟨n, by omega, fun p hp => h name p (hnames name hname) hp⟩
    exact ⟨a + n + 1, c + n + 1, by omega, hdue (by decide) hjump, hdue (by decide) hgoto⟩

/-! ### Sequences and fallbacks -/

variable {exec : Plugin → Context → Run} {fuel : Nat}

/-- The loop after a step pays for the jumps it takes up. -/
theorem jumpLoop_pays
    (hexec : ∀ {p m t ctx}, p.Costs env reg m → t + m < fuel → ctx.Owes env reg t →
      (exec p ctx).Pays env reg (t + m)) :
    ∀ (rounds t : Nat) (ctx : Context), t < rounds → t ≤ fuel → ctx.Owes env reg t →
      (jumpLoop reg exec rounds ctx).Pays env reg t := by
  intro rounds
  induction rounds with
  | zero => exact fun t ctx ht => absurd ht (Nat.not_lt_zero t)
  | succ rounds ih =>
    intro t ctx hrounds hfuel hctx
    rw [jumpLoop]
    split
    · split
      · exact Run.pays_done hctx
      · rename_i target htarget
        obtain ⟨k, u, hku, hcosts, howes⟩ := hctx.take (by decide) htarget
        dsimp only
        split
        · rename_i plugin hplugin
          obtain ⟨-, hlookup⟩ := Option.ite_none_right_eq_some.mp hplugin
          refine Run.pays_andThen (hexec (hcosts plugin hlookup) (by omega) howes) (by omega) fun ctx' hctx' => ?_
          exact (ih (u + k) _ (by omega) (by omega) (hctx'.restore _)).mono (by omega)
        · exact (ih u _ (by omega) (by omega) howes).mono (by omega)
    · exact Run.pays_done hctx

theorem runSteps_pays
    (hexec : ∀ {p m t ctx}, p.Costs env reg m → t + m < fuel → ctx.Owes env reg t →
      (exec p ctx).Pays env reg (t + m)) (tag : Option String) :
    ∀ (steps : List (SequenceStep Plugin)) (index t : Nat) (ctx : Context),
      (∀ step ∈ steps, step.action.Costs env reg n) → t + steps.length * n < fuel → ctx.Owes env reg t →
      (runSteps env reg exec fuel tag index steps ctx).Pays env reg (t + steps.length * n) := by
  intro steps
  induction steps with
  | nil => exact fun index t ctx _ _ hctx => Run.pays_done (hctx.mono (Nat.le_add_right _ _))
  | cons step rest ih =>
    intro index t ctx hsteps hfuel hctx
    have hlength : (step :: rest).length * n = n + rest.length * n := by
      rw [List.length_cons, Nat.add_mul, Nat.one_mul, Nat.add_comm]
    rw [hlength] at hfuel ⊢
    have hcosts := hsteps step List.mem_cons_self
    have hrecord : (ctx.record (.step tag index)).Owes env reg t := hctx.congr fun _ _ => rfl
    have hrun : (runStep env exec tag index ctx step).Pays env reg (t + n) := by
      cases step with
      | exec plugin => exact hexec hcosts (by omega) hrecord
      | cond condition action =>
        rw [runStep]
        split
        · exact hexec hcosts (by omega) hrecord
        · exact Run.pays_done (hctx.mono (Nat.le_add_right _ _))
    rw [runSteps]
    refine Run.pays_andThen hrun (by omega) fun ctx₁ hctx₁ => ?_
    refine Run.pays_andThen (jumpLoop_pays hexec fuel (t + n) ctx₁ (by omega) (by omega) hctx₁) (by omega)
      fun ctx₂ hctx₂ => ?_
    split
    · exact Run.pays_done ((hctx₂.setFlag _).mono (by omega))
    · split
      · exact Run.pays_done (hctx₂.mono (by omega))
      · rw [← Nat.add_assoc]
        exact ih (index + 1) (t + n) ctx₂ (fun s hs => hsteps s (List.mem_cons_of_mem _ hs)) (by omega) hctx₂

theorem runFallback_pays (errorOnly : Bool)
    (hexec : ∀ {p m t ctx}, p.Costs env reg m → t + m < fuel → ctx.Owes env reg t →
      (exec p ctx).Pays env reg (t + m)) :
    ∀ (children : List Plugin) (t : Nat) (ctx : Context), (∀ child ∈ children, child.Costs env reg n) →
      t + children.length * n < fuel → ctx.Owes env reg t →
      (runFallback exec errorOnly children ctx).Pays env reg (t + children.length * n) := by
  intro children
  induction children with
  | nil => exact fun t ctx _ _ hctx => Run.pays_done (hctx.mono (Nat.le_add_right _ _))
  | cons child rest ih =>
    intro t ctx hchildren hfuel hctx
    have hlength : (child :: rest).length * n = n + rest.length * n := by
      rw [List.length_cons, Nat.add_mul, Nat.one_mul, Nat.add_comm]
    rw [hlength] at hfuel ⊢
    have hrest : ∀ ctx', ctx'.Owes env reg (t + n) →
        (runFallback exec errorOnly rest ctx').Pays env reg (t + (n + rest.length * n)) := by
      intro ctx' hctx'
      rw [← Nat.add_assoc]
      exact ih (t + n) ctx' (fun c hc => hchildren c (List.mem_cons_of_mem _ hc)) (by omega) hctx'
    rw [runFallback]
    refine Proc.Within.bind (hexec (hchildren child List.mem_cons_self) (by omega) hctx) ?_
    rintro ⟨result, ctx'⟩ ⟨hctx', hstop⟩
    cases result with
    | ok u =>
      dsimp only
      split
      · exact hrest ctx' hctx'
      · exact Run.pays_done (hctx'.mono (by omega))
    | error stop =>
      cases stop with
      | outOfFuel => exact absurd rfl (hstop .outOfFuel rfl)
      | error e =>
        dsimp only
        split
        · exact hrest ctx' hctx'
        · exact Run.pays_done (hctx'.mono (by omega))

/-- With more fuel than it owes and costs, a plugin runs to its end. -/
theorem Plugin.Costs.execute_pays : ∀ (fuel : Nat) {p : Plugin} {m t : Nat} {ctx : Context},
    p.Costs env reg m → t + m < fuel → ctx.Owes env reg t → (p.execute env reg fuel ctx).Pays env reg (t + m) := by
  intro fuel
  induction fuel with
  | zero => exact fun _ hfuel _ => absurd hfuel (Nat.not_lt_zero _)
  | succ fuel ih =>
    intro p m t ctx h hfuel hctx
    cases p with
    | leaf l => exact Leaf.execute_pays h hctx
    | sequence tag steps =>
      cases h with
      | @sequence _ n _ _ h hm =>
        exact (runSteps_pays ih tag steps 0 t ctx h (by omega) hctx).mono (by omega)
    | fallback children errorOnly =>
      cases h with
      | @fallback _ n _ _ h hm =>
        exact (runFallback_pays errorOnly ih children t ctx h (by omega) hctx).mono (by omega)

end Lazydns
