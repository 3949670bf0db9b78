import Lazydns.Server.Calls

/-!
# The failure that ends a request

The error of a plugin goes up through sequences, jumps and gotos to the handler, unless a fallback stands in between, which goes on with its next child. So a request ends in an error exactly if a plugin fails that is called outside all fallbacks. `openCalls` follows the handler as the code does and lists these calls, each with the context and the state it finds.
-/

namespace Lazydns

open Dns

/-! ### Which plugins fail -/

/-- No upstream answers, neither in the race nor in any of the rounds. -/
def ForwardPlugin.Unanswered (env : Env) (i : Nat) (request : Message) (w : World) : Prop :=
  let p := w.forwards i
  let raced := (race env i request p).run w
  raced.1 = none ∧ ∀ k < min p.maxAttempts p.upstreams.length,
    (attempt env i request ((fun w => (attempt env i request w).2)^[k] raced.2)).1.toBool = false

/-- A forward fails without a response if no upstream answers, and a downloader if the download does. -/
def Call.Fails (env : Env) (c : Call) : Prop :=
  match c.leaf with
  | .forward i => c.ctx.response = none ∧ ForwardPlugin.Unanswered env i c.ctx.request c.world
  | .downloader => (env.download c.world.downloads).toBool = false
  | _ => False

instance (env : Env) (i : Nat) (request : Message) (w : World) :
    Decidable (ForwardPlugin.Unanswered env i request w) :=
  inferInstanceAs (Decidable (_ ∧ ∀ k < _, _))

instance (env : Env) (c : Call) : Decidable (c.Fails env) := by
  unfold Call.Fails
  split <;> infer_instance

def Run.Errs (p : Run) (w : World) : Prop := ∃ e, (p.run w).1.1 = .error (.error e)

section

variable {env : Env} {ctx : Context} {w : World}

theorem Run.not_errs_done : ¬ (Run.done ctx).Errs w := by
  rintro ⟨e, h⟩
  cases h

theorem Run.not_errs_step {f : World → Context × World} : ¬ (Run.step f).Errs w := by
  rintro ⟨e, h⟩
  cases h

namespace ForwardPlugin

theorem executeSequential_errs_iff {i rounds : Nat} {request : Message} {lastError : Option Error} :
    (executeSequential env i request rounds lastError ctx).Errs w ↔
      ∀ k < rounds, (attempt env i request ((fun w => (attempt env i request w).2)^[k] w)).1.toBool =
        false := by
  induction rounds generalizing lastError w with
  | zero => exact ⟨fun _ k hk => absurd hk (Nat.not_lt_zero k), fun _ => ⟨_, rfl⟩⟩
  | succ rounds ih =>
    rw [Run.Errs, executeSequential, Proc.run_bind, Proc.run_atomic]
    cases hattempt : (attempt env i request w).1 with
    | ok m =>
      refine iff_of_false Run.not_errs_done fun hall => ?_
      have hfirst := hall 0 (Nat.succ_pos rounds)
      rw [Function.iterate_zero_apply, hattempt] at hfirst
      cases hfirst
    | error e =>
      refine Iff.trans ih ⟨fun hall k hk => ?_, fun hall k hk => ?_⟩
      · cases k with
        | zero =>
          rw [Function.iterate_zero_apply, hattempt]
          rfl
        | succ k =>
          rw [Function.iterate_succ_apply]
          exact hall k (Nat.lt_of_succ_lt_succ hk)
      · rw [← Function.iterate_succ_apply]
        exact hall (k + 1) (Nat.succ_lt_succ hk)

theorem execute_errs_iff {i : Nat} :
    (execute env i ctx).Errs w ↔ ctx.response = none ∧ Unanswered env i ctx.request w := by
  cases hresponse : ctx.response with
  | some m =>
    rw [execute, Context.hasResponse, hresponse, Option.isSome_some, if_pos rfl]
    exact iff_of_false Run.not_errs_done fun h => Option.some_ne_none m h.1
  | none =>
    rw [Run.Errs, execute, Context.hasResponse, hresponse, Option.isSome_none, if_neg Bool.false_ne_true,
      Proc.run_bind, Proc.run_atomic, Proc.run_bind, Unanswered]
    dsimp only
    cases hrace : ((race env i ctx.request (w.forwards i)).run w).1 with
    | some m => exact iff_of_false Run.not_errs_done fun h => Option.some_ne_none m h.2.1
    | none =>
      refine executeSequential_errs_iff.trans ?_
      simp only [true_and]

end ForwardPlugin

/-- A plugin without children ends in an error exactly if its call is one that fails. -/
theorem Leaf.execute_errs_iff (l : Leaf) : (l.execute env ctx).Errs w ↔ Call.Fails env ⟨l, ctx, w⟩ := by
  cases l with
  | forward i => exact ForwardPlugin.execute_errs_iff
  | downloader =>
    rw [Call.Fails, Run.Errs, execute, Proc.run_atomic, executeDownloader]
    cases env.download w.downloads with
    | ok u =>
      refine iff_of_false ?_ Bool.false_ne_true.symm
      rintro ⟨e, h⟩
      cases h
    | error e => exact iff_of_true ⟨e, rfl⟩ rfl
  | plain p => exact iff_of_false Run.not_errs_done id
  | cache i => exact iff_of_false Run.not_errs_step id
  | rateLimit i => exact iff_of_false Run.not_errs_step id
  | domainValidator i => exact iff_of_false Run.not_errs_step id
  | reverseLookup i => exact iff_of_false Run.not_errs_step id
  | sleep duration => exact iff_of_false Run.not_errs_step id

end

/-! ### The calls outside fallbacks -/

/-- The calls outside fallbacks that a run from a state makes. -/
abbrev OpenCalls := World → List Call

/-- The calls of a run, and then those of the one that follows it if it comes to its end. -/
def OpenCalls.andThen (p : Run) (first : OpenCalls) (rest : Context → OpenCalls) : OpenCalls := fun w =>
  first w ++ match (p.run w).1 with
    | (.ok _, ctx) => rest ctx (p.run w).2
    | (.error _, _) => []

section

variable (env : Env) (reg : Registry) (exec : Plugin → Context → Run) (opens : Plugin → Context → OpenCalls)

def jumpOpen : Nat → Context → OpenCalls
  | 0, _ => fun _ => []
  | rounds + 1, ctx =>
    if ctx.hasMetadata "jump_target" then
      match ctx.getString "jump_target" with
      | none => fun _ => []
      | some target =>
        let ctx := (ctx.removeMetadata "jump_target").removeMetadata RETURN_FLAG
        match if ctx.getRegistry "__plugin_registry" then reg.lookup target else none with
        | some plugin =>
          let saved := ctx.getBool RETURN_FLAG
          .andThen (exec plugin ctx) (opens plugin ctx) fun ctx =>
            jumpOpen rounds (restoreReturnFlag saved ctx)
        | none => jumpOpen rounds ctx
    else fun _ => []

def stepOpen (tag : Option String) (index : Nat) (ctx : Context) : SequenceStep Plugin → OpenCalls
  | .exec plugin => opens plugin (ctx.record (.step tag index))
  | .cond condition action =>
    if condition.eval env ctx then opens action (ctx.record (.step tag index)) else fun _ => []

def stepsOpen (rounds : Nat) (tag : Option String) :
    Nat → List (SequenceStep Plugin) → Context → OpenCalls
  | _, [], _ => fun _ => []
  | index, step :: rest, ctx =>
    .andThen (runStep env exec tag index ctx step) (stepOpen env opens tag index ctx step) fun ctx =>
    .andThen (jumpLoop reg exec rounds ctx) (jumpOpen reg exec opens rounds ctx) fun ctx =>
    if ctx.hasMetadata "goto_label" then fun _ => []
    else if ctx.getBool RETURN_FLAG = some true then fun _ => []
    else stepsOpen rounds tag (index + 1) rest ctx

def gotoOpen : Nat → Context → OpenCalls
  | 0, _ => fun _ => []
  | rounds + 1, ctx =>
    if ctx.hasMetadata "goto_label" then
      match ctx.getString "goto_label" with
      | none => fun _ => []
      | some target =>
        let ctx := (ctx.removeMetadata "goto_label").removeMetadata RETURN_FLAG
        match reg.lookup target with
        | some plugin => .andThen (exec plugin ctx) (opens plugin ctx) (gotoOpen rounds)
        | none => fun _ => []
    else fun _ => []

end

section

variable (env : Env) (reg : Registry)

def Plugin.openCalls : Nat → Plugin → Context → OpenCalls
  | 0, _, _ => fun _ => []
  | _ + 1, .leaf l, ctx => fun w => [⟨l, ctx, w⟩]
  | fuel + 1, .sequence tag steps, ctx =>
    stepsOpen env reg (Plugin.execute env reg fuel) (Plugin.openCalls fuel) fuel tag 0 steps ctx
  | _ + 1, .fallback _ _, _ => fun _ => []

def entryOpen (fuel : Nat) (entry : String) (ctx : Context) : OpenCalls :=
  .andThen
    (match reg.lookup entry with
      | some plugin => plugin.execute env reg fuel ctx
      | none => .done ctx)
    (match reg.lookup entry with
      | some plugin => plugin.openCalls env reg fuel ctx
      | none => fun _ => [])
    (gotoOpen reg (Plugin.execute env reg fuel) (Plugin.openCalls env reg fuel) fuel)

/-- The plugins that are run for a request outside fallbacks, in order. What follows the plugins cannot fail. -/
def PluginHandler.openCalls (fuel : Nat) (entry : String) (req : RequestContext) : OpenCalls := fun w =>
  entryOpen env reg fuel entry (initialContext w.now entry req) w

end

/-! ### What the calls account for -/

/-- The run ends in an error exactly if one of the calls fails. -/
def Run.Accounts (env : Env) (p : Run) (calls : OpenCalls) : Prop :=
  ∀ w, p.Errs w ↔ ∃ c ∈ calls w, c.Fails env

section

variable {env : Env} {reg : Registry}

theorem exists_mem_nil {P : Call → Prop} : ¬ ∃ c ∈ ([] : List Call), P c := by
  rintro ⟨c, hc, -⟩
  cases hc

namespace Run.Accounts

theorem of_not_errs {p : Run} (h : ∀ w, ¬ p.Errs w) : p.Accounts env fun _ => [] :=
  fun w => iff_of_false (h w) exists_mem_nil

theorem done (ctx : Context) : (Run.done ctx).Accounts env fun _ => [] :=
  .of_not_errs fun _ => Run.not_errs_done

theorem outOfFuel (ctx : Context) : (Run.fail .outOfFuel ctx).Accounts env fun _ => [] :=
  .of_not_errs fun _ ⟨_, h⟩ => by cases h

theorem call (l : Leaf) (ctx : Context) : (l.execute env ctx).Accounts env fun w => [⟨l, ctx, w⟩] := by
  intro w
  simp only [Leaf.execute_errs_iff, List.mem_singleton, exists_eq_left]

theorem andThen {p : Run} {calls : OpenCalls} {k : Context → Run} {rest : Context → OpenCalls}
    (hp : p.Accounts env calls) (hk : ∀ ctx, (k ctx).Accounts env (rest ctx)) :
    (Run.andThen p k).Accounts env (.andThen p calls rest) := by
  intro w
  have hfirst := hp w
  rw [OpenCalls.andThen]
  simp only [List.mem_append, or_and_right, exists_or, ← hfirst]
  cases hrun : p.run w with | mk r w' => ?_
  obtain ⟨result, ctx⟩ := r
  cases result with
  | ok u =>
    have hok : ¬ p.Errs w := by
      rintro ⟨e, he⟩
      rw [hrun] at he
      cases he
    rw [Run.Errs, Run.run_andThen_of_ok hrun, or_iff_right hok]
    exact hk ctx w'
  | error stop =>
    rw [Run.Errs, Run.run_andThen_of_error hrun, Run.Errs, hrun, or_iff_left exists_mem_nil]

end Run.Accounts

section

variable {exec : Plugin → Context → Run} {opens : Plugin → Context → OpenCalls}
  (hexec : ∀ p ctx, (exec p ctx).Accounts env (opens p ctx))

include hexec

end

end

end Lazydns
