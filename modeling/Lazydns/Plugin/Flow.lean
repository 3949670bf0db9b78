import Lazydns.Server.Handler

/-!
# Control flow

The code writes accept, reject, return, jump and goto into one flag and two strings of the metadata, which every sequence reads, clears and restores. Here they are signals: a plugin ends with one, and whatever ran the plugin decides by it how to go on, with no trace of the control flow in the context. Two of the decisions are left to a `Reading`, of which there are two: what the documentation says, and what the code does.
-/

namespace Lazydns

open Dns

/-- How a plugin ends: the next step follows, the sequence is left, the request is finished, or another plugin is to run. -/
inductive Signal where
  | next
  | ret
  | finish
  | jump (target : String)
  | goto (label : String)

/-- What a caller makes of the way a sequence ended. -/
structure Reading where
  /-- What a sequence that a `return` ended counts for in the sequence that runs it as a step. -/
  returned : Signal
  /-- What a jump target that an `accept` or a `reject` ended counts for in the sequence that jumped. -/
  finished : Signal

namespace Reading

/-- `return` ends the current sequence only; `accept` and `reject` end all callers too. -/
def documented : Reading := ⟨.next, .finish⟩

/-- `accept`, `reject` and `return` end the current sequence and those that run it as a step, and no sequence that jumped. -/
def coded : Reading := ⟨.ret, .next⟩

/-- What the sequence that jumped makes of the way the target ended. -/
def afterJump (R : Reading) : Signal → Signal
  | .ret => .next
  | .finish => R.finished
  | s => s

/-- How a sequence ends after a step that did not lead to the next one. -/
def leaves (R : Reading) : Signal → Signal
  | .ret => R.returned
  | s => s

end Reading

namespace Flow

/-! ### Runs that end with a signal -/

abbrev Ending : Type := Except Stop Signal × Context

abbrev Run : Type := Proc World Ending

def done (s : Signal) (ctx : Context) : Run := .ret (.ok s, ctx)

def fail (stop : Stop) (ctx : Context) : Run := .ret (.error stop, ctx)

def andThen (p : Run) (k : Signal → Context → Run) : Run := do
  match ← p with
  | (.ok s, ctx) => k s ctx
  | (.error stop, ctx) => fail stop ctx

/-! ### Plugins -/

/-- How an action that is no control action ends: a cache that has served and a limiter that has refused finish the request. -/
def endingOf : Outcome → Ending
  | (.ok _, ctx) =>
    (.ok (if ctx.getBool RETURN_FLAG = some true then .finish else .next), ctx.removeMetadata RETURN_FLAG)
  | (.error stop, ctx) => (.error stop, ctx)

section

variable (R : Reading) (env : Env) (reg : Registry)

def leaf (ctx : Context) : Leaf → Run
  | .plain .accept => done .finish ctx
  | .plain (.reject rcode) =>
    done .finish (ctx.setResponse (some { replyTo ctx.request ctx.request.questions [] with
      rcode := ResponseCode.fromU8 rcode }))
  | .plain .ret => done .ret ctx
  | .plain (.jump target) => done (.jump target) ctx
  | .plain (.goto label) => done (.goto label) ctx
  | l => do return endingOf (← l.execute env ctx)

variable (exec : Plugin → Context → Run)

/-- Run the target of a jump, and of the jump that it may end with in turn. -/
def jumps : Nat → Signal → Context → Run
  | 0, .jump _, ctx => fail .outOfFuel ctx
  | rounds + 1, .jump target, ctx =>
    match reg.lookup target with
    | some plugin => andThen (exec plugin ctx) fun s ctx => jumps rounds (R.afterJump s) ctx
    | none => done .next ctx
  | _, s, ctx => done s ctx

def runStep (tag : Option String) (index : Nat) (ctx : Context) : SequenceStep Plugin → Run
  | .exec plugin => exec plugin (ctx.record (.step tag index))
  | .cond condition action =>
    if condition.eval env ctx then exec action (ctx.record (.step tag index)) else done .next ctx

def runSteps (rounds : Nat) (tag : Option String) : Nat → List (SequenceStep Plugin) → Context → Run
  | _, [], ctx => done .next ctx
  | index, step :: rest, ctx =>
    andThen (runStep env exec tag index ctx step) fun s ctx =>
    andThen (jumps R reg exec rounds s ctx) fun s ctx =>
      match s with
      | .next => runSteps rounds tag (index + 1) rest ctx
      | s => done (R.leaves s) ctx

/-- A fallback goes on after a child that failed or left no answer. -/
def runFallback (errorOnly : Bool) : List Plugin → Context → Run
  | [], ctx => done .next ctx
  | child :: rest, ctx => do
    match ← exec child ctx with
    | (.error .outOfFuel, ctx) => fail .outOfFuel ctx
    | (.error _, ctx) => runFallback errorOnly rest ctx
    | (.ok s, ctx) =>
      if shouldFallback errorOnly ctx false then runFallback errorOnly rest ctx else done s ctx

end

/-- Run a plugin, with the number of nested calls it may make. -/
def execute (R : Reading) (env : Env) (reg : Registry) : Nat → Plugin → Context → Run
  | 0, _, ctx => fail .outOfFuel ctx
  | _ + 1, .leaf l, ctx => leaf env ctx l
  | fuel + 1, .sequence tag steps, ctx => runSteps R env reg (execute R env reg fuel) fuel tag 0 steps ctx
  | fuel + 1, .fallback children errorOnly, ctx =>
    runFallback (execute R env reg fuel) errorOnly children ctx

/-! ### Requests -/

/-- Run the target of a goto, and of the goto that it may end with in turn. -/
def gotos (reg : Registry) (exec : Plugin → Context → Run) : Nat → Signal → Context → Run
  | 0, .goto _, ctx => fail .outOfFuel ctx
  | rounds + 1, .goto label, ctx =>
    match reg.lookup label with
    | some plugin => andThen (exec plugin ctx) (gotos reg exec rounds)
    | none => done .next ctx
  | _, s, ctx => done s ctx

def runEntry (R : Reading) (env : Env) (reg : Registry) (fuel : Nat) (entry : String) (ctx : Context) : Run :=
  andThen (match reg.lookup entry with
    | some plugin => execute R env reg fuel plugin ctx
    | none => done .next ctx) (gotos reg (execute R env reg fuel) fuel)

/-- A request, up to the response that is returned; what comes after the plugins is the handler's. -/
def process (R : Reading) (env : Env) (reg : Registry) (fuel : Nat) (entry : String) (req : RequestContext) :
    Lazydns.Run := do
  let ctx ← Proc.atomic fun w => (PluginHandler.initialContext w.now entry req, w)
  match ← runEntry R env reg fuel entry ctx with
  | (.ok _, ctx) => PluginHandler.postProcess env reg ctx
  | (.error stop, ctx) => Lazydns.Run.fail stop ctx

end Flow

end Lazydns
