import Lazydns.Server.HandlerRules

/-!
# The calls a run makes

A request handled alone makes a list of calls: one for each plugin without children that runs, with the context and the state it finds. `logged` follows the handler through sequences, jumps, gotos and fallbacks as the code does and lists them. That it is the same run, that only calls send queries, and that what each call keeps holds at all of them is proved in one induction.
-/

namespace Lazydns

open Dns

structure Call where
  leaf : Leaf
  ctx : Context
  world : World

def Call.result (env : Env) (c : Call) : Outcome × World := (c.leaf.execute env c.ctx).run c.world

/-- A run from a state, with the calls it makes. -/
abbrev Logged := World → List Call × Outcome × World

namespace Logged

def done (ctx : Context) : Logged := fun w => ([], (.ok (), ctx), w)

def fail (stop : Stop) (ctx : Context) : Logged := fun w => ([], (.error stop, ctx), w)

/-- A step that is no call of a plugin. -/
def step (f : World → Context × World) : Logged := fun w => ([], (.ok (), (f w).1), (f w).2)

def call (env : Env) (l : Leaf) (ctx : Context) : Logged :=
  fun w => ([⟨l, ctx, w⟩], Call.result env ⟨l, ctx, w⟩)

def bind (p : Logged) (k : Outcome → Logged) : Logged := fun w =>
  let first := p w
  let rest := k first.2.1 first.2.2
  (first.1 ++ rest.1, rest.2)

def andThen (p : Logged) (k : Context → Logged) : Logged :=
  p.bind fun
    | (.ok _, ctx) => k ctx
    | (.error stop, ctx) => fail stop ctx

end Logged

/-! ### The control flow -/

section

variable (env : Env) (reg : Registry) (exec : Plugin → Context → Logged)

def jumpLogged : Nat → Context → Logged
  | 0, ctx => if ctx.hasMetadata "jump_target" then .fail .outOfFuel ctx else .done ctx
  | rounds + 1, ctx =>
    if ctx.hasMetadata "jump_target" then
      match ctx.getString "jump_target" with
      | none => .done ctx
      | some target =>
        let ctx := (ctx.removeMetadata "jump_target").removeMetadata RETURN_FLAG
        match if ctx.getRegistry "__plugin_registry" then reg.lookup target else none with
        | some plugin =>
          let saved := ctx.getBool RETURN_FLAG
          .andThen (exec plugin ctx) fun ctx => jumpLogged rounds (restoreReturnFlag saved ctx)
        | none => jumpLogged rounds ctx
    else .done ctx

def stepLogged (tag : Option String) (index : Nat) (ctx : Context) : SequenceStep Plugin → Logged
  | .exec plugin => exec plugin (ctx.record (.step tag index))
  | .cond condition action =>
    if condition.eval env ctx then exec action (ctx.record (.step tag index)) else .done ctx

def stepsLogged (rounds : Nat) (tag : Option String) :
    Nat → List (SequenceStep Plugin) → Context → Logged
  | _, [], ctx => .done ctx
  | index, step :: rest, ctx =>
    .andThen (stepLogged env exec tag index ctx step) fun ctx =>
    .andThen (jumpLogged reg exec rounds ctx) fun ctx =>
    if ctx.hasMetadata "goto_label" then .done (ctx.setMetadata RETURN_FLAG (.bool true))
    else if ctx.getBool RETURN_FLAG = some true then .done ctx
    else stepsLogged rounds tag (index + 1) rest ctx

def fallbackLogged (errorOnly : Bool) : List Plugin → Context → Logged
  | [], ctx => .done ctx
  | child :: rest, ctx =>
    .bind (exec child ctx) fun
      | (.error .outOfFuel, ctx) => .fail .outOfFuel ctx
      | (result, ctx) =>
        if shouldFallback errorOnly ctx (!result.toBool) then fallbackLogged errorOnly rest ctx
        else .done ctx

def gotoLogged : Nat → Context → Logged
  | 0, ctx => if ctx.hasMetadata "goto_label" then .fail .outOfFuel ctx else .done ctx
  | rounds + 1, ctx =>
    if ctx.hasMetadata "goto_label" then
      match ctx.getString "goto_label" with
      | none => .done ctx
      | some target =>
        let ctx := (ctx.removeMetadata "goto_label").removeMetadata RETURN_FLAG
        match reg.lookup target with
        | some plugin => .andThen (exec plugin ctx) (gotoLogged rounds)
        | none => .done ctx
    else .done ctx

end

section

variable (env : Env) (reg : Registry)

def Plugin.logged : Nat → Plugin → Context → Logged
  | 0, _, ctx => .fail .outOfFuel ctx
  | _ + 1, .leaf l, ctx => .call env l ctx
  | fuel + 1, .sequence tag steps, ctx => stepsLogged env reg (Plugin.logged fuel) fuel tag 0 steps ctx
  | fuel + 1, .fallback children errorOnly, ctx =>
    fallbackLogged (Plugin.logged fuel) errorOnly children ctx

def storeLogged : List Plugin → Context → Logged
  | [], ctx => .done ctx
  | plugin :: rest, ctx =>
    .andThen (match plugin with
      | .leaf (.cache i) => .call env (.cache i) ctx
      | _ => .done ctx) (storeLogged rest)

def saveLogged : List Plugin → Context → Logged
  | [], ctx => .done ctx
  | plugin :: rest, ctx =>
    .andThen (match plugin with
      | .leaf (.reverseLookup i) => .step (PluginHandler.saveStep i ctx)
      | _ => .done ctx) (saveLogged rest)

def entryLogged (fuel : Nat) (entry : String) (ctx : Context) : Logged :=
  .andThen (match reg.lookup entry with
    | some plugin => plugin.logged env reg fuel ctx
    | none => .done ctx) (gotoLogged reg (Plugin.logged env reg fuel) fuel)

def postLogged (ctx : Context) : Logged :=
  if ctx.hasResponse then
    .andThen (storeLogged env (PluginHandler.registered reg) ctx)
      (saveLogged (PluginHandler.registered reg))
  else .done ctx

/-- The run of a request up to its response, with the calls it makes. -/
def PluginHandler.logged (fuel : Nat) (entry : String) (req : RequestContext) : Logged := fun w =>
  (entryLogged env reg fuel entry (initialContext w.now entry req)).andThen (postLogged env reg) w

/-- The plugins that are run for a request, in order. -/
def PluginHandler.calls (fuel : Nat) (entry : String) (req : RequestContext) (w : World) : List Call :=
  (logged env reg fuel entry req w).1

end

/-! ### What a logged run is -/

/-- The count of queries sent to upstreams goes from `n` to `n'` through the calls alone. -/
def Sent (env : Env) : Nat → List Call → Nat → Prop
  | n, [], n' => n' = n
  | n, c :: calls, n' => c.world.exchanges = n ∧ Sent env (c.result env).2.exchanges calls n'

theorem Sent.append {env : Env} {n m k : Nat} {calls calls' : List Call} (h : Sent env n calls m)
    (h' : Sent env m calls' k) : Sent env n (calls ++ calls') k := by
  induction calls generalizing n with
  | nil =>
    obtain rfl : m = n := h
    exact h'
  | cons c calls ih => exact ⟨h.1, ih h.2⟩

theorem Sent.of_append {env : Env} {n k : Nat} {calls calls' : List Call}
    (h : Sent env n (calls ++ calls') k) : ∃ m, Sent env n calls m ∧ Sent env m calls' k := by
  induction calls generalizing n with
  | nil => exact ⟨n, rfl, h⟩
  | cons c calls ih =>
    obtain ⟨m, hm, hk⟩ := ih h.2
    exact ⟨m, ⟨h.1, hm⟩, hk⟩

/-- The log of a run from a context: same outcome and state, queries sent by the calls; and if `J` holds of the context and the calls satisfy `K`, then `J` holds at each of them and at the end. -/
structure Logs (env : Env) (K : Call → Prop) (J : Context → Prop) (ctx : Context) (p : Run)
    (L : Logged) : Prop where
  run : ∀ w, (L w).2 = p.run w
  sent : ∀ w, Sent env w.exchanges (L w).1 (L w).2.2.exchanges
  keeps : J ctx → ∀ w, (∀ c ∈ (L w).1, K c) → (∀ c ∈ (L w).1, J c.ctx) ∧ J (L w).2.1.2

namespace Logs

variable {env : Env} {reg : Registry} {K : Call → Prop} {J : Context → Prop} {ctx ctx' : Context}

theorem done (h : J ctx → J ctx') : Logs env K J ctx (Run.done ctx') (Logged.done ctx') where
  run := fun _ => rfl
  sent := fun _ => rfl
  keeps := fun hctx _ _ => ⟨fun _ hc => absurd hc List.not_mem_nil, h hctx⟩

theorem fail (stop : Stop) : Logs env K J ctx (Run.fail stop ctx) (Logged.fail stop ctx) where
  run := fun _ => rfl
  sent := fun _ => rfl
  keeps := fun hctx _ _ => ⟨fun _ hc => absurd hc List.not_mem_nil, hctx⟩

theorem step {f : World → Context × World} (hsent : ∀ w, (f w).2.exchanges = w.exchanges)
    (h : J ctx → ∀ w, J (f w).1) : Logs env K J ctx (Run.step f) (Logged.step f) where
  run := fun _ => rfl
  sent := hsent
  keeps := fun hctx w _ => ⟨fun _ hc => absurd hc List.not_mem_nil, h hctx w⟩

theorem call (hleaf : ∀ c, J c.ctx → K c → J (c.result env).1.2) (l : Leaf) (ctx : Context) :
    Logs env K J ctx (l.execute env ctx) (Logged.call env l ctx) where
  run := fun _ => rfl
  sent := fun _ => ⟨rfl, rfl⟩
  keeps := fun hctx w hK => by
    have hcall := hK ⟨l, ctx, w⟩ List.mem_cons_self
    refine ⟨fun c hc => ?_, hleaf _ hctx hcall⟩
    obtain rfl := List.mem_singleton.mp hc
    exact hctx

theorem of_imp (ctx' : Context) {p : Run} {L : Logged} (h : J ctx → J ctx')
    (hp : Logs env K J ctx' p L) : Logs env K J ctx p L where
  run := hp.run
  sent := hp.sent
  keeps := fun hctx => hp.keeps (h hctx)

theorem bind {p : Run} {L : Logged} {k : Outcome → Run} {k' : Outcome → Logged}
    (hp : Logs env K J ctx p L) (hk : ∀ r, Logs env K J r.2 (k r) (k' r)) :
    Logs env K J ctx (p >>= k) (L.bind k') where
  run := fun w => by
    rw [Proc.run_bind, ← hp.run w]
    exact (hk _).run _
  sent := fun w => (hp.sent w).append ((hk _).sent _)
  keeps := fun hctx w hK => by
    obtain ⟨hcalls, hend⟩ := hp.keeps hctx w fun c hc => hK c (List.mem_append_left _ hc)
    obtain ⟨hcalls', hend'⟩ :=
      (hk _).keeps hend (L w).2.2 fun c hc => hK c (List.mem_append_right _ hc)
    refine ⟨fun c hc => ?_, hend'⟩
    rcases List.mem_append.mp hc with hc | hc
    · exact hcalls c hc
    · exact hcalls' c hc

theorem andThen {p : Run} {L : Logged} {k : Context → Run} {k' : Context → Logged}
    (hp : Logs env K J ctx p L) (hk : ∀ ctx, Logs env K J ctx (k ctx) (k' ctx)) :
    Logs env K J ctx (Run.andThen p k) (L.andThen k') := by
  refine hp.bind fun r => ?_
  obtain ⟨result, ctx'⟩ := r
  cases result with
  | ok u => exact hk ctx'
  | error stop => exact fail stop

end Logs

/-! ### The log of the handler -/

section

variable {env : Env} {reg : Registry} {K : Call → Prop} {J : Context → Prop}
  {exec : Plugin → Context → Run} {exec' : Plugin → Context → Logged}

theorem jumpLoop_logs (hJ : ControlFree J) (hexec : ∀ p ctx, Logs env K J ctx (exec p ctx) (exec' p ctx)) :
    ∀ rounds ctx, Logs env K J ctx (jumpLoop reg exec rounds ctx) (jumpLogged reg exec' rounds ctx) := by
  intro rounds
  induction rounds with
  | zero =>
    intro ctx
    rw [jumpLoop, jumpLogged]
    split
    · exact .fail _
    · exact .done id
  | succ rounds ih =>
    intro ctx
    rw [jumpLoop, jumpLogged]
    split
    · cases ctx.getString "jump_target" with
      | none => exact .done id
      | some target =>
        dsimp only
        refine Logs.of_imp ((ctx.removeMetadata "jump_target").removeMetadata RETURN_FLAG)
          (fun h => hJ.remove _ _ (by decide) (hJ.remove _ _ (by decide) h)) ?_
        cases (if ((ctx.removeMetadata "jump_target").removeMetadata RETURN_FLAG).getRegistry
          "__plugin_registry" then reg.lookup target else none) with
        | none => exact ih _
        | some plugin =>
          refine (hexec _ _).andThen fun ctx => (ih _).of_imp _ fun h => ?_
          cases Context.getBool _ RETURN_FLAG with
          | some flag => exact hJ.setFlag _ _ h
          | none => exact hJ.remove _ _ (by decide) h
    · exact .done id

theorem runSteps_logs (hJ : ControlFree J) (hexec : ∀ p ctx, Logs env K J ctx (exec p ctx) (exec' p ctx))
    (rounds : Nat) (tag : Option String) : ∀ steps index ctx, Logs env K J ctx
      (runSteps env reg exec rounds tag index steps ctx)
      (stepsLogged env reg exec' rounds tag index steps ctx) := by
  intro steps
  induction steps with
  | nil => exact fun _ _ => .done id
  | cons step rest ih =>
    intro index ctx
    rw [runSteps, stepsLogged]
    refine Logs.andThen ?_ fun ctx => (jumpLoop_logs hJ hexec rounds ctx).andThen fun ctx => ?_
    · cases step with
      | exec plugin => exact (hexec _ _).of_imp _ (hJ.record _ _ _)
      | cond condition action =>
        rw [runStep, stepLogged]
        split
        · exact (hexec _ _).of_imp _ (hJ.record _ _ _)
        · exact .done id
    · split
      · exact .done (hJ.setFlag _ _)
      · split
        · exact .done id
        · exact ih _ _

theorem runFallback_logs (hexec : ∀ p ctx, Logs env K J ctx (exec p ctx) (exec' p ctx))
    (errorOnly : Bool) : ∀ children ctx, Logs env K J ctx (runFallback exec errorOnly children ctx)
      (fallbackLogged exec' errorOnly children ctx) := by
  intro children
  induction children with
  | nil => exact fun _ => .done id
  | cons child rest ih =>
    intro ctx
    rw [runFallback, fallbackLogged]
    refine (hexec child ctx).bind fun r => ?_
    obtain ⟨result, ctx⟩ := r
    have hnext : Logs env K J ctx
        (if shouldFallback errorOnly ctx (!result.toBool) then runFallback exec errorOnly rest ctx
          else Run.done ctx)
        (if shouldFallback errorOnly ctx (!result.toBool) then fallbackLogged exec' errorOnly rest ctx
          else Logged.done ctx) := by
      split
      · exact ih _
      · exact .done id
    cases result with
    | ok u => exact hnext
    | error stop =>
      cases stop with
      | error e => exact hnext
      | outOfFuel => exact .fail _

theorem gotoLoop_logs (hJ : ControlFree J) (hexec : ∀ p ctx, Logs env K J ctx (exec p ctx) (exec' p ctx)) :
    ∀ rounds ctx, Logs env K J ctx (PluginHandler.gotoLoop reg exec rounds ctx)
      (gotoLogged reg exec' rounds ctx) := by
  intro rounds
  induction rounds with
  | zero =>
    intro ctx
    rw [PluginHandler.gotoLoop, gotoLogged]
    split
    · exact .fail _
    · exact .done id
  | succ rounds ih =>
    intro ctx
    rw [PluginHandler.gotoLoop, gotoLogged]
    split
    · cases ctx.getString "goto_label" with
      | none => exact .done id
      | some target =>
        dsimp only
        refine Logs.of_imp ((ctx.removeMetadata "goto_label").removeMetadata RETURN_FLAG)
          (fun h => hJ.remove _ _ (by decide) (hJ.remove _ _ (by decide) h)) ?_
        cases reg.lookup target with
        | none => exact .done id
        | some plugin => exact (hexec _ _).andThen ih
    · exact .done id

variable (hJ : ControlFree J) (hleaf : ∀ c, J c.ctx → K c → J (c.result env).1.2)

include hJ hleaf

theorem Plugin.execute_logs : ∀ fuel p ctx,
    Logs env K J ctx (Plugin.execute env reg fuel p ctx) (Plugin.logged env reg fuel p ctx) := by
  intro fuel
  induction fuel with
  | zero => exact fun _ _ => .fail _
  | succ fuel ih =>
    intro p ctx
    cases p with
    | leaf l => exact .call hleaf l ctx
    | sequence tag steps => exact runSteps_logs hJ ih fuel tag steps 0 ctx
    | fallback children errorOnly => exact runFallback_logs ih errorOnly children ctx

omit hJ in
theorem storePhase_logs : ∀ plugins ctx, Logs env K J ctx (PluginHandler.storePhase env plugins ctx)
    (storeLogged env plugins ctx) := by
  intro plugins
  induction plugins with
  | nil => exact fun _ => .done id
  | cons plugin rest ih =>
    intro ctx
    refine Logs.andThen ?_ ih
    cases plugin with
    | leaf l =>
      cases l with
      | cache i => exact .call hleaf (.cache i) ctx
      | _ => exact .done id
    | sequence tag steps => exact .done id
    | fallback children errorOnly => exact .done id

omit hJ hleaf in
theorem reversePhase_logs : ∀ plugins ctx, Logs env K J ctx (PluginHandler.reversePhase plugins ctx)
    (saveLogged plugins ctx) := by
  intro plugins
  induction plugins with
  | nil => exact fun _ => .done id
  | cons plugin rest ih =>
    intro ctx
    refine Logs.andThen ?_ ih
    cases plugin with
    | leaf l =>
      cases l with
      | reverseLookup i => exact .step (fun _ => rfl) fun h _ => h
      | _ => exact .done id
    | sequence tag steps => exact .done id
    | fallback children errorOnly => exact .done id

theorem PluginHandler.process_logs (fuel : Nat) (entry : String) (req : RequestContext) (w : World) :
    Logs env K J (initialContext w.now entry req)
      (Run.andThen (runEntry env reg fuel entry (initialContext w.now entry req)) (postProcess env reg))
      ((entryLogged env reg fuel entry (initialContext w.now entry req)).andThen (postLogged env reg)) := by
  have hexec : ∀ p ctx, Logs env K J ctx (Plugin.execute env reg fuel p ctx)
      (Plugin.logged env reg fuel p ctx) := Plugin.execute_logs hJ hleaf fuel
  refine Logs.andThen ?_ fun ctx => ?_
  · rw [runEntry, entryLogged]
    refine Logs.andThen ?_ (gotoLoop_logs hJ hexec fuel)
    cases reg.lookup entry with
    | none => exact .done id
    | some plugin => exact hexec plugin _
  · rw [postProcess, postLogged]
    split
    · exact (storePhase_logs hleaf _ ctx).andThen (reversePhase_logs _)
    · exact .done id

end

namespace PluginHandler

variable (env : Env) (reg : Registry) (fuel : Nat) (entry : String) (req : RequestContext) (w : World)

theorem logged_run : (logged env reg fuel entry req w).2 = (process env reg fuel entry req).run w :=
  (process_logs (K := fun _ => True) (J := fun _ => True) ⟨by simp, by simp, by simp⟩ (by simp) fuel
    entry req w).run w

theorem calls_sent : Sent env w.exchanges (calls env reg fuel entry req w)
    ((process env reg fuel entry req).run w).2.exchanges := by
  rw [← logged_run]
  exact (process_logs (K := fun _ => True) (J := fun _ => True) ⟨by simp, by simp, by simp⟩ (by simp) fuel
    entry req w).sent w

/-- What holds at the start and is kept by each call that is made holds at all of them, and at the end. -/
theorem calls_keep {K : Call → Prop} {J : Context → Prop} (hJ : ControlFree J)
    (hleaf : ∀ c, J c.ctx → K c → J (c.result env).1.2) (hinit : J (initialContext w.now entry req))
    (hK : ∀ c ∈ calls env reg fuel entry req w, K c) :
    (∀ c ∈ calls env reg fuel entry req w, J c.ctx) ∧
      J ((process env reg fuel entry req).run w).1.2 := by
  rw [← logged_run]
  exact (process_logs hJ hleaf fuel entry req w).keeps hinit w hK

end PluginHandler

end Lazydns
