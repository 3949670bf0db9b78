import Lazydns.Plugin.Leaf

/-!
# Sequences, fallbacks and the registry

A sequence runs its steps in order and reads the control-flow keys of the metadata after each of them; a fallback runs its children until one is satisfactory. Both run other plugins, and a jump runs whatever the registry holds under a name, so nothing bounds the depth: a run takes the number of nested calls it may make, and a run that needs more ends with `outOfFuel`.
-/

namespace Lazydns

open Dns

/-! ### Conditions -/

/-- The conditions of `if` steps. The sets of `qname` and `resp_ip` are given by their membership tests; `const` is the condition on a set that does not exist. -/
inductive Condition where
  | hasResp
  | hasCname
  | qclass (classes : List UInt16)
  | qtype (types : List UInt16)
  | rcode (codes : List UInt8)
  | qname (inSet : String → Bool)
  | notQname (domain : String)
  | respIp (inSet : IpAddr → Bool)
  | notRespIp (inSet : IpAddr → Bool)
  | const (value : Bool)

namespace Condition

/-- `IpSetPlugin::matches_context`. -/
def answerInSet (inSet : IpAddr → Bool) (ctx : Context) : Bool :=
  ctx.response.any fun response => response.answers.any fun rr => (answerIp rr).any inSet

def eval (env : Env) (ctx : Context) : Condition → Bool
  | hasResp => ctx.hasResponse
  | hasCname => ctx.response.any fun response => response.answers.any (·.rtype == .CNAME)
  | qclass classes => ctx.request.questions.head?.any fun q => classes.contains q.qclass.toU16
  | qtype types => ctx.request.questions.head?.any fun q => types.contains q.qtype.toU16
  | rcode codes => ctx.response.any fun response => codes.contains response.rcode.toU8
  | qname inSet => ctx.request.questions.head?.any fun q => inSet (trimEndDots q.qname)
  | notQname domain =>
    ctx.request.questions.head?.all fun q => env.toLowercase q.qname ≠ env.toLowercase domain
  | respIp inSet => answerInSet inSet ctx
  | notRespIp inSet => !answerInSet inSet ctx
  | const value => value

end Condition

/-! ### Plugins -/

inductive SequenceStep (P : Type) where
  | exec (plugin : P)
  | cond (condition : Condition) (action : P)

/-- The plugin a step runs. -/
def SequenceStep.action {P : Type} : SequenceStep P → P
  | exec plugin => plugin
  | cond _ action => action

inductive Plugin where
  | leaf (l : Leaf)
  | sequence (tag : Option String) (steps : List (SequenceStep Plugin))
  | fallback (children : List Plugin) (errorOnly : Bool)

/-- Plugins by name. The order of the entries is the order in which the handler goes through them; it can be any. -/
abbrev Registry := AList fun _ : String => Plugin

/-! ### Running them -/

section

variable (env : Env) (reg : Registry) (exec : Plugin → Context → Run)

/-- Restore the flag as it was before a jump. -/
def restoreReturnFlag (saved : Option Bool) (ctx : Context) : Context :=
  match saved with
  | some flag => ctx.setMetadata RETURN_FLAG (.bool flag)
  | none => ctx.removeMetadata RETURN_FLAG

/-- The `jump_target` loop after a step, with a bound on its rounds. -/
def jumpLoop : Nat → Context → Run
  | 0, ctx => if ctx.hasMetadata "jump_target" then .fail .outOfFuel ctx else .done ctx
  | rounds + 1, ctx =>
    if ctx.hasMetadata "jump_target" then
      match ctx.getString "jump_target" with
      | none => .done ctx
      | some target =>
        let ctx := (ctx.removeMetadata "jump_target").removeMetadata RETURN_FLAG
        match if ctx.getRegistry "__plugin_registry" then reg.lookup target else none with
        | some plugin =>
          let saved := ctx.getBool RETURN_FLAG
          .andThen (exec plugin ctx) fun ctx => jumpLoop rounds (restoreReturnFlag saved ctx)
        | none => jumpLoop rounds ctx
    else .done ctx

theorem jumpLoop_of_none {rounds : Nat} {ctx : Context} (h : ctx.metadata "jump_target" = none) :
    jumpLoop reg exec rounds ctx = .done ctx := by
  have hnone : ctx.hasMetadata "jump_target" = false := by
    rw [Context.hasMetadata, h]
    rfl
  cases rounds with
  | zero => rw [jumpLoop, hnone, if_neg Bool.false_ne_true]
  | succ rounds => rw [jumpLoop, hnone, if_neg Bool.false_ne_true]

def runStep (tag : Option String) (index : Nat) (ctx : Context) : SequenceStep Plugin → Run
  | .exec plugin => exec plugin (ctx.record (.step tag index))
  | .cond condition action =>
    if condition.eval env ctx then exec action (ctx.record (.step tag index)) else .done ctx

/-- The loop of `SequencePlugin::execute`, from the step with a given index on. -/
def runSteps (rounds : Nat) (tag : Option String) :
    Nat → List (SequenceStep Plugin) → Context → Run
  | _, [], ctx => .done ctx
  | index, step :: rest, ctx =>
    .andThen (runStep env exec tag index ctx step) fun ctx =>
    .andThen (jumpLoop reg exec rounds ctx) fun ctx =>
    if ctx.hasMetadata "goto_label" then .done (ctx.setMetadata RETURN_FLAG (.bool true))
    else if ctx.getBool RETURN_FLAG = some true then .done ctx
    else runSteps rounds tag (index + 1) rest ctx

def shouldFallback (errorOnly : Bool) (ctx : Context) (hadError : Bool) : Bool :=
  hadError || (!errorOnly && ctx.response.all fun response => response.answers.isEmpty)

/-- `FallbackPlugin::execute`: a failed child is skipped. Running out of nested calls is no failure of a child and ends the run. -/
def runFallback (errorOnly : Bool) : List Plugin → Context → Run
  | [], ctx => .done ctx
  | child :: rest, ctx => do
    match ← exec child ctx with
    | (.error .outOfFuel, ctx) => Run.fail .outOfFuel ctx
    | (result, ctx) =>
      if shouldFallback errorOnly ctx (!result.toBool) then runFallback errorOnly rest ctx
      else Run.done ctx

end

/-- `Plugin::execute`, with the number of nested calls it may make. -/
def Plugin.execute (env : Env) (reg : Registry) : Nat → Plugin → Context → Run
  | 0, _, ctx => .fail .outOfFuel ctx
  | _ + 1, .leaf l, ctx => l.execute env ctx
  | fuel + 1, .sequence tag steps, ctx =>
    runSteps env reg (Plugin.execute env reg fuel) fuel tag 0 steps ctx
  | fuel + 1, .fallback children errorOnly, ctx =>
    runFallback (Plugin.execute env reg fuel) errorOnly children ctx

end Lazydns
