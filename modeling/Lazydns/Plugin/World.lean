import Lazydns.Lib.Proc
import Lazydns.Plugin.Cache
import Lazydns.Plugin.Policy
import Lazydns.Plugin.Reply

/-!
# The state requests share

The clock and the plugin objects with state, each at its address: whoever holds the address of a plugin shares its state. A plugin's run is a process over this state.
-/

namespace Lazydns

open Dns

/-! ### Forwarding state -/

inductive LoadBalanceStrategy where
  | roundRobin | random | fastest
  deriving DecidableEq, Repr

/-- `avgResponseTime` is in microseconds. -/
structure UpstreamHealth where
  queries : Nat
  successes : Nat
  failures : Nat
  avgResponseTime : Nat
  deriving DecidableEq, Repr

namespace UpstreamHealth

def new : UpstreamHealth := ⟨0, 0, 0, 0⟩

def recordSuccess (elapsed : Nat) (h : UpstreamHealth) : UpstreamHealth :=
  { h with
    queries := h.queries + 1
    successes := h.successes + 1
    avgResponseTime :=
      if h.successes = 0 then elapsed * 1000
      else (h.avgResponseTime * h.successes + elapsed * 1000) / (h.successes + 1) }

def recordFailure (h : UpstreamHealth) : UpstreamHealth :=
  { h with queries := h.queries + 1, failures := h.failures + 1 }

end UpstreamHealth

structure Upstream where
  addr : String
  health : UpstreamHealth
  deriving DecidableEq, Repr

structure ForwardPlugin where
  upstreams : List Upstream
  strategy : LoadBalanceStrategy
  healthChecksEnabled : Bool
  maxAttempts : Nat
  current : Nat
  concurrentQueries : Bool
  deriving DecidableEq, Repr

namespace ForwardPlugin

def new (addrs : List String) : ForwardPlugin where
  upstreams := addrs.map fun addr => ⟨addr, .new⟩
  strategy := .roundRobin
  healthChecksEnabled := false
  maxAttempts := 3
  current := 0
  concurrentQueries := false

/-- `record_outcome` for the upstream at an index. -/
def recordOutcome (idx elapsed : Nat) (success : Bool) (p : ForwardPlugin) : ForwardPlugin :=
  if p.healthChecksEnabled then
    { p with upstreams := p.upstreams.modify idx fun u =>
        { u with health :=
            if success then u.health.recordSuccess elapsed else u.health.recordFailure } }
  else p

/-- The index of the upstream with the least average time; one that has not answered yet counts as fastest. -/
def fastest : Nat → Nat → List Upstream → Nat → Nat
  | best, _, [], _ => best
  | best, bestTime, u :: rest, idx =>
    let time := u.health.avgResponseTime
    if bestTime = 0 then fastest best bestTime rest (idx + 1)
    else if time = 0 ∨ time < bestTime then fastest idx time rest (idx + 1)
    else fastest best bestTime rest (idx + 1)

/-- `select_upstream`, for a round-robin counter and a clock reading. -/
def selectUpstream (nanos : Nat) (p : ForwardPlugin) : Option Nat :=
  match p.upstreams with
  | [] => none
  | u :: rest =>
    match p.strategy with
    | .roundRobin => some (p.current % (rest.length + 1))
    | .random => some (nanos % (rest.length + 1))
    | .fastest => some (fastest 0 u.health.avgResponseTime rest 1)

end ForwardPlugin

/-! ### The shared state -/

/-- `exchanges` counts the queries sent to upstreams so far, `downloads` the runs of downloaders. -/
structure World where
  now : Nat
  caches : Nat → CachePlugin
  limiters : Nat → RateLimitPlugin
  validators : Nat → DomainValidatorPlugin
  reverses : Nat → ReverseLookupPlugin
  forwards : Nat → ForwardPlugin
  exchanges : Nat
  downloads : Nat

namespace World

def setCache (w : World) (i : Nat) (c : CachePlugin) : World :=
  { w with caches := Function.update w.caches i c }

def setLimiter (w : World) (i : Nat) (p : RateLimitPlugin) : World :=
  { w with limiters := Function.update w.limiters i p }

def setValidator (w : World) (i : Nat) (p : DomainValidatorPlugin) : World :=
  { w with validators := Function.update w.validators i p }

def setReverse (w : World) (i : Nat) (p : ReverseLookupPlugin) : World :=
  { w with reverses := Function.update w.reverses i p }

def setForward (w : World) (i : Nat) (p : ForwardPlugin) : World :=
  { w with forwards := Function.update w.forwards i p }

section

variable (w : World) (i : Nat)

@[simp] theorem setCache_caches (c : CachePlugin) :
    (w.setCache i c).caches = Function.update w.caches i c := rfl
@[simp] theorem setCache_now (c : CachePlugin) : (w.setCache i c).now = w.now := rfl
@[simp] theorem setLimiter_caches (p : RateLimitPlugin) :
    (w.setLimiter i p).caches = w.caches := rfl
@[simp] theorem setValidator_caches (p : DomainValidatorPlugin) :
    (w.setValidator i p).caches = w.caches := rfl
@[simp] theorem setReverse_caches (p : ReverseLookupPlugin) :
    (w.setReverse i p).caches = w.caches := rfl
@[simp] theorem setForward_caches (p : ForwardPlugin) :
    (w.setForward i p).caches = w.caches := rfl

end

end World

/-! ### Plugin runs -/

/-- Why a run ends early: a plugin failed, or the bound on nested calls was used up. -/
inductive Stop where
  | error (e : Error)
  | outOfFuel
  deriving DecidableEq, Repr

/-- What a plugin's run leaves: its result and the context. -/
abbrev Outcome := Except Stop Unit × Context

abbrev Run := Proc World Outcome

namespace Run

def done (ctx : Context) : Run := .ret (.ok (), ctx)

def fail (stop : Stop) (ctx : Context) : Run := .ret (.error stop, ctx)

/-- The `?` operator: go on with the context unless the run failed. -/
def andThen (p : Run) (k : Context → Run) : Run := do
  match ← p with
  | (.ok _, ctx) => k ctx
  | (.error stop, ctx) => fail stop ctx

theorem andThen_done (ctx : Context) (k : Context → Run) : andThen (done ctx) k = k ctx := rfl

theorem andThen_fail (stop : Stop) (ctx : Context) (k : Context → Run) :
    andThen (fail stop ctx) k = fail stop ctx := rfl

/-- One atomic step on the shared state that cannot fail. -/
def step (f : World → Context × World) : Run :=
  .atomic fun w => ((.ok (), (f w).1), (f w).2)

theorem run_step (f : World → Context × World) (w : World) :
    (step f).run w = ((.ok (), (f w).1), (f w).2) := rfl

theorem run_andThen_of_ok {p : Run} {w w' : World} {ctx : Context}
    (h : p.run w = ((.ok (), ctx), w')) (k : Context → Run) :
    (andThen p k).run w = (k ctx).run w' := by
  rw [andThen, Proc.run_bind, h]

theorem run_andThen_of_error {p : Run} {w w' : World} {ctx : Context} {stop : Stop}
    (h : p.run w = ((.error stop, ctx), w')) (k : Context → Run) :
    (andThen p k).run w = ((.error stop, ctx), w') := by
  rw [andThen, Proc.run_bind, h]
  rfl

end Run

end Lazydns
