import Lazydns.Plugin.Frame

/-!
# Children of a fallback

A child is built from forwards, accepts, returns and plugins that only leave metadata, put together by sequences and further fallbacks. What it does depends on the request, on whether there is a response already, and on the return flag. Given a response it leaves it and sends no query; without one it leaves a response only if it has sent a query and does not fail.
-/

namespace Lazydns

open Dns

/-- The plugins without children that a child is built from. -/
def Leaf.InChild : Leaf → Prop
  | .forward _ | .sleep _ | .plain .accept | .plain .ret => True
  | .plain p => p.annotates = true ∧ ∀ key ∈ controlKeys, key ∉ p.keys
  | _ => False

/-- A child of a fallback, nested less than `n` deep. -/
inductive Plugin.Child : Nat → Plugin → Prop
  | leaf {n : Nat} {l : Leaf} (h : l.InChild) : Child (n + 1) (.leaf l)
  | sequence {n : Nat} {tag : Option String} {steps : List (SequenceStep Plugin)}
      (h : ∀ step ∈ steps, Child n step.action) : Child (n + 1) (.sequence tag steps)
  | fallback {n : Nat} {children : List Plugin} {errorOnly : Bool}
      (h : ∀ child ∈ children, Child n child) : Child (n + 1) (.fallback children errorOnly)

/-! ### What a child sees and does -/

structure Context.Idle (ctx : Context) : Prop where
  jump : ctx.metadata "jump_target" = none
  goto : ctx.metadata "goto_label" = none

theorem Context.Idle.setFlag {ctx : Context} (h : ctx.Idle) (value : MetaValue) :
    (ctx.setMetadata RETURN_FLAG value).Idle where
  jump := by
    rw [Context.setMetadata_metadata, Function.update_of_ne (by decide)]
    exact h.jump
  goto := by
    rw [Context.setMetadata_metadata, Function.update_of_ne (by decide)]
    exact h.goto

/-- What a child can tell from its context is the same. -/
structure Context.Alike (c c' : Context) : Prop where
  request : c.request = c'.request
  response : c.response = c'.response
  flag : c.metadata RETURN_FLAG = c'.metadata RETURN_FLAG

/-- What a child leaves, as far as another child can tell. -/
structure SameEnd (r r' : Outcome × World) : Prop where
  result : r.1.1 = r'.1.1
  context : r.1.2.Alike r'.1.2
  world : r.2 = r'.2

/-- What a child run from a context and a state can end with. -/
structure ChildEnd (ctx : Context) (w : World) (r : Outcome × World) : Prop where
  idle : r.1.2.Idle
  request : r.1.2.request = ctx.request
  flag : r.1.2.metadata RETURN_FLAG = ctx.metadata RETURN_FLAG ∨
    r.1.2.metadata RETURN_FLAG = some (.bool true)
  fuel : r.1.1 ≠ .error .outOfFuel
  kept : ∀ m, ctx.response = some m →
    r.1.1 = .ok () ∧ r.1.2.response = some m ∧ r.2.exchanges = w.exchanges
  asked : ctx.response = none → w.exchanges ≤ r.2.exchanges ∧
    (r.1.2.response ≠ none → r.1.1 = .ok () ∧ w.exchanges < r.2.exchanges)

namespace ChildEnd

variable {ctx ctx' : Context} {w w' : World} {r r' : Outcome × World}

theorem done (hidle : ctx'.Idle) (hrequest : ctx'.request = ctx.request)
    (hresponse : ctx'.response = ctx.response) (hexchanges : w'.exchanges = w.exchanges)
    (hflag : ctx'.metadata RETURN_FLAG = ctx.metadata RETURN_FLAG ∨
      ctx'.metadata RETURN_FLAG = some (.bool true)) : ChildEnd ctx w ((.ok (), ctx'), w') where
  idle := hidle
  request := hrequest
  flag := hflag
  fuel := nofun
  kept := fun _ hm => ⟨rfl, hresponse.trans hm, hexchanges⟩
  asked := fun hnone => ⟨Nat.le_of_eq hexchanges.symm, fun h => absurd (hresponse.trans hnone) h⟩

theorem refl (h : ctx.Idle) : ChildEnd ctx w ((.ok (), ctx), w) := done h rfl rfl rfl (.inl rfl)

theorem failed (hidle : ctx.Idle) (hnone : ctx.response = none) (e : Error)
    (hle : w.exchanges ≤ w'.exchanges) : ChildEnd ctx w ((.error (.error e), ctx), w') where
  idle := hidle
  request := rfl
  flag := .inl rfl
  fuel := nofun
  kept := fun m hm => by
    rw [hnone] at hm
    cases hm
  asked := fun _ => ⟨hle, fun hne => absurd hnone hne⟩

theorem answered (hidle : ctx.Idle) (hnone : ctx.response = none) (m : Message)
    (hlt : w.exchanges < w'.exchanges) :
    ChildEnd ctx w ((.ok (), ctx.setResponse (some m)), w') where
  idle := ⟨hidle.jump, hidle.goto⟩
  request := rfl
  flag := .inl rfl
  fuel := nofun
  kept := fun m hm => by
    rw [hnone] at hm
    cases hm
  asked := fun _ => ⟨Nat.le_of_lt hlt, fun _ => ⟨rfl, hlt⟩⟩

theorem after (h : ChildEnd ctx w' r) (hnone : ctx.response = none) (hle : w.exchanges ≤ w'.exchanges) :
    ChildEnd ctx w r where
  idle := h.idle
  request := h.request
  flag := h.flag
  fuel := h.fuel
  kept := fun m hm => by
    rw [hnone] at hm
    cases hm
  asked := fun _ => by
    obtain ⟨hle', hsome⟩ := h.asked hnone
    refine ⟨Nat.le_trans hle hle', fun hne => ?_⟩
    have := hsome hne
    exact ⟨this.1, Nat.lt_of_le_of_lt hle this.2⟩

theorem trans (h : ChildEnd ctx w r) (h' : ChildEnd r.1.2 r.2 r') : ChildEnd ctx w r' where
  idle := h'.idle
  request := h'.request.trans h.request
  flag := by
    rcases h'.flag with heq | htrue
    · rw [heq]
      exact h.flag
    · exact .inr htrue
  fuel := h'.fuel
  kept := fun m hm => by
    obtain ⟨-, hresponse, hexchanges⟩ := h.kept m hm
    obtain ⟨hok, hresponse', hexchanges'⟩ := h'.kept m hresponse
    exact ⟨hok, hresponse', hexchanges'.trans hexchanges⟩
  asked := fun hnone => by
    obtain ⟨hle, hsome⟩ := h.asked hnone
    cases hresponse : r.1.2.response with
    | none =>
      obtain ⟨hle', hsome'⟩ := h'.asked hresponse
      refine ⟨Nat.le_trans hle hle', fun hne => ?_⟩
      have := hsome' hne
      exact ⟨this.1, Nat.lt_of_le_of_lt hle this.2⟩
    | some m =>
      have hlt := (hsome (by simp [hresponse])).2
      obtain ⟨hok, -, hexchanges⟩ := h'.kept m hresponse
      rw [hexchanges]
      exact ⟨hle, fun _ => ⟨hok, hlt⟩⟩

theorem response_of_error (h : ChildEnd ctx w r) {stop : Stop} (hstop : r.1.1 = .error stop) :
    ctx.response = none ∧ r.1.2.response = none := by
  have hnone : ctx.response = none := by
    cases hresponse : ctx.response with
    | none => rfl
    | some m =>
      have := (h.kept m hresponse).1
      rw [hstop] at this
      cases this
  refine ⟨hnone, ?_⟩
  by_contra hne
  have := ((h.asked hnone).2 hne).1
  rw [hstop] at this
  cases this

end ChildEnd

/-- Both facts about a child: what it ends with, and that it ends the same from contexts it cannot tell apart. -/
structure Behaves (run : Context → Run) : Prop where
  ends : ∀ ctx w, ctx.Idle → ChildEnd ctx w ((run ctx).run w)
  same : ∀ c c' w, c.Idle → c'.Idle → c.Alike c' → SameEnd ((run c).run w) ((run c').run w)

theorem Behaves.andThen {p k : Context → Run} (hp : Behaves p) (hk : Behaves k) :
    Behaves fun ctx => Run.andThen (p ctx) k where
  ends := fun ctx w hidle => by
    have hend := hp.ends ctx w hidle
    rcases hrun : (p ctx).run w with ⟨⟨result, ctx'⟩, w'⟩
    rw [hrun] at hend
    cases result with
    | ok u =>
      rw [Run.run_andThen_of_ok hrun]
      exact hend.trans (hk.ends ctx' w' hend.idle)
    | error stop =>
      rw [Run.run_andThen_of_error hrun]
      exact hend
  same := fun c c' w hc hc' halike => by
    have hsame := hp.same c c' w hc hc' halike
    have hidle := (hp.ends c w hc).idle
    have hidle' := (hp.ends c' w hc').idle
    rcases hrun : (p c).run w with ⟨⟨result, d⟩, v⟩
    rcases hrun' : (p c').run w with ⟨⟨result', d'⟩, v'⟩
    rw [hrun, hrun'] at hsame
    rw [hrun] at hidle
    rw [hrun'] at hidle'
    obtain rfl : result = result' := hsame.result
    obtain rfl : v = v' := hsame.world
    cases result with
    | ok u =>
      rw [Run.run_andThen_of_ok hrun, Run.run_andThen_of_ok hrun']
      exact hk.same d d' v hidle hidle' hsame.context
    | error stop =>
      rw [Run.run_andThen_of_error hrun, Run.run_andThen_of_error hrun']
      exact hsame

/-! ### Plugins without children -/

namespace ForwardPlugin

variable {env : Env}

theorem attempt_exchanges (env : Env) (i : Nat) (request : Message) (w : World) :
    w.exchanges ≤ (attempt env i request w).2.exchanges ∧
      ∀ m, (attempt env i request w).1 = .ok m → w.exchanges < (attempt env i request w).2.exchanges := by
  rw [attempt]
  dsimp only
  split
  · exact ⟨Nat.le_refl w.exchanges, fun m h => by cases h⟩
  · exact ⟨Nat.le_succ w.exchanges, fun _ _ => Nat.lt_succ_self w.exchanges⟩

theorem executeSequential_ends (i : Nat) {ctx : Context} (request : Message) (hidle : ctx.Idle)
    (hnone : ctx.response = none) : ∀ (rounds : Nat) (lastError : Option Error) (w : World),
      ChildEnd ctx w ((executeSequential env i request rounds lastError ctx).run w) := by
  intro rounds
  induction rounds with
  | zero => exact fun lastError w => .failed hidle hnone _ le_rfl
  | succ rounds ih =>
    intro lastError w
    obtain ⟨hle, hlt⟩ := attempt_exchanges env i request w
    rw [executeSequential, Proc.run_bind, Proc.run_atomic]
    cases hresult : (attempt env i request w).1 with
    | ok response => exact .answered hidle hnone response (hlt response hresult)
    | error e => exact (ih (some e) _).after hnone hle

theorem executeSequential_same (i : Nat) (request : Message) {c c' : Context} (halike : c.Alike c') :
    ∀ (rounds : Nat) (lastError : Option Error) (w : World),
      SameEnd ((executeSequential env i request rounds lastError c).run w)
        ((executeSequential env i request rounds lastError c').run w) := by
  intro rounds
  induction rounds with
  | zero => exact fun lastError w => ⟨rfl, halike, rfl⟩
  | succ rounds ih =>
    intro lastError w
    rw [executeSequential, executeSequential, Proc.run_bind, Proc.run_bind, Proc.run_atomic]
    cases (attempt env i request w).1 with
    | ok response => exact ⟨rfl, ⟨halike.request, rfl, halike.flag⟩, rfl⟩
    | error e => exact ih (some e) _

theorem race_exchanges (i : Nat) (request : Message) (p : ForwardPlugin) (w : World)
    (hp : p = w.forwards i) :
    w.exchanges ≤ ((race env i request p).run w).2.exchanges ∧
      (((race env i request p).run w).1 ≠ none →
        w.exchanges < ((race env i request p).run w).2.exchanges) := by
  subst hp
  rw [race]
  split
  · rename_i hseveral
    have hpos : 1 < (w.forwards i).upstreams.length := by
      rw [Bool.and_eq_true, decide_eq_true_eq] at hseveral
      exact hseveral.2
    have hsent : ((Proc.atomic (executeConcurrent env i request)).run w).2.exchanges =
        w.exchanges + (w.forwards i).upstreams.length := rfl
    rw [hsent]
    exact ⟨Nat.le_add_right _ _, fun _ => by omega⟩
  · exact ⟨le_rfl, fun h => absurd rfl h⟩

theorem execute_behaves (i : Nat) : Behaves (execute env i) where
  ends := fun ctx w hidle => by
    cases hresponse : ctx.response with
    | some m =>
      rw [execute, if_pos (by rw [Context.hasResponse, hresponse]; rfl)]
      exact .refl hidle
    | none =>
      rw [execute, if_neg (by simp [Context.hasResponse, hresponse]), Proc.run_bind,
        Proc.run_atomic, Proc.run_bind]
      obtain ⟨hle, hlt⟩ := @race_exchanges env i ctx.request (w.forwards i) w rfl
      cases hrace : ((race env i ctx.request (w.forwards i)).run w).1 with
      | some reply => exact .answered hidle hresponse reply (hlt (by simp [hrace]))
      | none => exact (executeSequential_ends i ctx.request hidle hresponse _ _ _).after hresponse hle
  same := fun c c' w _ _ halike => by
    have hhas : c.hasResponse = c'.hasResponse := by
      rw [Context.hasResponse, Context.hasResponse, halike.response]
    rw [execute, execute, hhas, halike.request]
    split
    · exact ⟨rfl, halike, rfl⟩
    · simp only [Proc.run_bind, Proc.run_atomic]
      cases ((race env i c'.request (w.forwards i)).run w).1 with
      | some reply => exact ⟨rfl, ⟨halike.request, rfl, halike.flag⟩, rfl⟩
      | none => exact executeSequential_same i c'.request halike _ _ _

end ForwardPlugin

theorem Behaves.of_annotates {f : Context → Context} (hsame : ∀ ctx, Context.SameMessages ctx (f ctx))
    (hidle : ∀ ctx, ctx.Idle → (f ctx).Idle)
    (hflag : (∀ ctx, (f ctx).metadata RETURN_FLAG = ctx.metadata RETURN_FLAG) ∨
      ∀ ctx, (f ctx).metadata RETURN_FLAG = some (.bool true)) :
    Behaves fun ctx => Run.done (f ctx) where
  ends := fun ctx w h => by
    refine .done (hidle ctx h) (hsame ctx).request (hsame ctx).response rfl ?_
    rcases hflag with hkept | hset
    · exact .inl (hkept ctx)
    · exact .inr (hset ctx)
  same := fun c c' w _ _ halike => by
    refine ⟨rfl, ⟨?_, ?_, ?_⟩, rfl⟩
    · exact ((hsame c).request.trans halike.request).trans (hsame c').request.symm
    · exact ((hsame c).response.trans halike.response).trans (hsame c').response.symm
    · rcases hflag with hkept | hset
      · exact ((hkept c).trans halike.flag).trans (hkept c').symm
      · exact (hset c).trans (hset c').symm

theorem LocalPlugin.execute_behaves (env : Env) {p : LocalPlugin} (hp : (Leaf.plain p).InChild) :
    Behaves fun ctx => Run.done (p.execute env ctx) := by
  have hcases : p = .accept ∨ p = .ret ∨ (p.annotates = true ∧ ∀ key ∈ controlKeys, key ∉ p.keys) := by
    cases p with
    | accept => exact .inl rfl
    | ret => exact .inr (.inl rfl)
    | _ => exact .inr (.inr hp)
  rcases hcases with rfl | rfl | ⟨hannotates, hkeys⟩
  · exact .of_annotates (fun ctx => execute_annotates env rfl ctx)
      (fun ctx h => h.setFlag _) (.inr fun ctx => by simp [execute, AcceptPlugin.execute])
  · exact .of_annotates (fun ctx => execute_annotates env rfl ctx)
      (fun ctx h => h.setFlag _) (.inr fun ctx => by simp [execute, ReturnPlugin.execute])
  · have hkept : ∀ ctx, ∀ key ∈ controlKeys, (p.execute env ctx).metadata key = ctx.metadata key :=
      fun ctx key hkey => (p.execute_grows ctx).metadata key (hkeys key hkey)
    exact .of_annotates (fun ctx => execute_annotates env hannotates ctx)
      (fun ctx h => ⟨(hkept ctx _ (by decide)).trans h.jump, (hkept ctx _ (by decide)).trans h.goto⟩)
      (.inl fun ctx => hkept ctx _ (by decide))

theorem Leaf.execute_behaves (env : Env) {l : Leaf} (hl : l.InChild) :
    Behaves fun ctx => l.execute env ctx := by
  cases l with
  | plain p => exact p.execute_behaves env hl
  | forward i => exact ForwardPlugin.execute_behaves i
  | sleep duration =>
    exact {
      ends := fun ctx w h => .done h rfl rfl rfl (.inl rfl)
      same := fun c c' w _ _ halike => ⟨rfl, halike, rfl⟩ }
  | _ => exact hl.elim

/-! ### Sequences and fallbacks -/

section

variable {env : Env} {reg : Registry} {exec : Plugin → Context → Run}

theorem Condition.eval_alike {c c' : Context} (h : c.Alike c') (condition : Condition) :
    condition.eval env c = condition.eval env c' := by
  cases condition <;> simp only [eval, Context.hasResponse, answerInSet, h.request, h.response]

theorem runFallback_cons {errorOnly : Bool} {child : Plugin} {rest : List Plugin} {ctx : Context}
    {w : World} (hfuel : ((exec child ctx).run w).1.1 ≠ .error .outOfFuel) :
    (runFallback exec errorOnly (child :: rest) ctx).run w =
      if shouldFallback errorOnly ((exec child ctx).run w).1.2
          (!((exec child ctx).run w).1.1.toBool) then
        (runFallback exec errorOnly rest ((exec child ctx).run w).1.2).run ((exec child ctx).run w).2
      else ((.ok (), ((exec child ctx).run w).1.2), ((exec child ctx).run w).2) := by
  rw [runFallback, Proc.run_bind]
  rcases hrun : (exec child ctx).run w with ⟨⟨result, ctx'⟩, w'⟩
  rw [hrun] at hfuel
  cases result with
  | ok u =>
    dsimp only
    split <;> rfl
  | error stop =>
    cases stop with
    | error e =>
      dsimp only
      split <;> rfl
    | outOfFuel => exact absurd rfl hfuel

theorem ok_of_not_shouldFallback {errorOnly : Bool} {r : Outcome × World}
    (h : ¬ shouldFallback errorOnly r.1.2 (!r.1.1.toBool) = true) : r = ((.ok (), r.1.2), r.2) := by
  obtain ⟨⟨result, ctx⟩, w⟩ := r
  cases result with
  | ok u => rfl
  | error stop => exact absurd rfl h

theorem jumpLoop_idle {ctx : Context} (h : ctx.Idle) (rounds : Nat) :
    jumpLoop reg exec rounds ctx = Run.done ctx := by
  have hnone : ctx.hasMetadata "jump_target" = false := by
    rw [Context.hasMetadata, h.jump]
    rfl
  cases rounds with
  | zero => rw [jumpLoop, hnone, if_neg Bool.false_ne_true]
  | succ rounds => rw [jumpLoop, hnone, if_neg Bool.false_ne_true]

theorem jumpLoop_behaves (rounds : Nat) : Behaves (jumpLoop reg exec rounds) where
  ends := fun ctx w h => by
    rw [jumpLoop_idle h]
    exact .refl h
  same := fun c c' w hc hc' halike => by
    rw [jumpLoop_idle hc, jumpLoop_idle hc']
    exact ⟨rfl, halike, rfl⟩

theorem runStep_behaves (tag : Option String) (index : Nat) {step : SequenceStep Plugin}
    (hstep : Behaves (exec step.action)) :
    Behaves fun ctx => runStep env exec tag index ctx step := by
  have hrecord : Behaves fun ctx => exec step.action (ctx.record (.step tag index)) := {
    ends := fun ctx w h => by
      have hend := hstep.ends (ctx.record (.step tag index)) w ⟨h.jump, h.goto⟩
      exact ⟨hend.idle, hend.request, hend.flag, hend.fuel, hend.kept, hend.asked⟩
    same := fun c c' w hc hc' halike =>
      hstep.same _ _ w ⟨hc.jump, hc.goto⟩ ⟨hc'.jump, hc'.goto⟩
        ⟨halike.request, halike.response, halike.flag⟩ }
  cases step with
  | exec plugin => exact hrecord
  | cond condition action =>
    refine ⟨fun ctx w h => ?_, fun c c' w hc hc' halike => ?_⟩
    · rw [runStep]
      split
      · exact hrecord.ends ctx w h
      · exact .refl h
    · rw [runStep, runStep, condition.eval_alike halike]
      split
      · exact hrecord.same c c' w hc hc' halike
      · exact ⟨rfl, halike, rfl⟩

theorem runSteps_behaves (rounds : Nat) (tag : Option String) : ∀ (steps : List (SequenceStep Plugin))
    (index : Nat), (∀ step ∈ steps, Behaves (exec step.action)) →
      Behaves (runSteps env reg exec rounds tag index steps) := by
  intro steps
  induction steps with
  | nil =>
    exact fun _ _ => ⟨fun ctx w h => .refl h, fun c c' w _ _ halike => ⟨rfl, halike, rfl⟩⟩
  | cons step rest ih =>
    intro index hsteps
    have hrest := ih (index + 1) fun s hs => hsteps s (List.mem_cons_of_mem _ hs)
    refine (runStep_behaves tag index (hsteps step List.mem_cons_self)).andThen
      ((jumpLoop_behaves rounds).andThen ⟨fun ctx w h => ?_, fun c c' w hc hc' halike => ?_⟩)
    · have hgoto : ctx.hasMetadata "goto_label" = false := by
        rw [Context.hasMetadata, h.goto]
        rfl
      rw [hgoto, if_neg Bool.false_ne_true]
      split
      · exact .refl h
      · exact hrest.ends ctx w h
    · have hgoto : c.hasMetadata "goto_label" = false ∧ c'.hasMetadata "goto_label" = false := by
        rw [Context.hasMetadata, Context.hasMetadata, hc.goto, hc'.goto]
        exact ⟨rfl, rfl⟩
      have hflag : c.getBool RETURN_FLAG = c'.getBool RETURN_FLAG := by
        rw [Context.getBool, Context.getBool, halike.flag]
      rw [hgoto.1, hgoto.2, if_neg Bool.false_ne_true, if_neg Bool.false_ne_true, hflag]
      split
      · exact ⟨rfl, halike, rfl⟩
      · exact hrest.same c c' w hc hc' halike

theorem runFallback_behaves (errorOnly : Bool) : ∀ children : List Plugin,
    (∀ child ∈ children, Behaves (exec child)) → Behaves (runFallback exec errorOnly children) := by
  intro children
  induction children with
  | nil => exact fun _ => ⟨fun ctx w h => .refl h, fun c c' w _ _ halike => ⟨rfl, halike, rfl⟩⟩
  | cons child rest ih =>
    intro hchildren
    have hchild := hchildren child List.mem_cons_self
    have hrest := ih fun c hc => hchildren c (List.mem_cons_of_mem _ hc)
    refine ⟨fun ctx w h => ?_, fun c c' w hc hc' halike => ?_⟩
    · have hend := hchild.ends ctx w h
      rw [runFallback_cons hend.fuel]
      split
      · exact hend.trans (hrest.ends _ _ hend.idle)
      · rename_i hstop
        rw [← ok_of_not_shouldFallback hstop]
        exact hend
    · have hsame := hchild.same c c' w hc hc' halike
      have hidle := (hchild.ends c w hc).idle
      have hidle' := (hchild.ends c' w hc').idle
      have hshould : shouldFallback errorOnly ((exec child c).run w).1.2
          (!((exec child c).run w).1.1.toBool) =
          shouldFallback errorOnly ((exec child c').run w).1.2
          (!((exec child c').run w).1.1.toBool) := by
        rw [shouldFallback, shouldFallback, hsame.result, hsame.context.response]
      rw [runFallback_cons (hchild.ends c w hc).fuel, runFallback_cons (hchild.ends c' w hc').fuel,
        hshould, hsame.world]
      split
      · exact hrest.same _ _ _ hidle hidle' hsame.context
      · exact ⟨rfl, hsame.context, rfl⟩

theorem Plugin.Child.behaves {n : Nat} {p : Plugin} (h : p.Child n) {fuel : Nat} (hfuel : n ≤ fuel) :
    Behaves (p.execute env reg fuel) := by
  induction h generalizing fuel with
  | leaf h =>
    obtain ⟨m, rfl⟩ : ∃ m, fuel = m + 1 := ⟨fuel - 1, by omega⟩
    exact Leaf.execute_behaves env h
  | sequence h ih =>
    obtain ⟨m, rfl⟩ : ∃ m, fuel = m + 1 := ⟨fuel - 1, by omega⟩
    exact runSteps_behaves m _ _ 0 fun step hstep => ih step hstep (by omega)
  | fallback h ih =>
    obtain ⟨m, rfl⟩ : ∃ m, fuel = m + 1 := ⟨fuel - 1, by omega⟩
    exact runFallback_behaves _ _ fun child hchild => ih child hchild (by omega)

end

end Lazydns
