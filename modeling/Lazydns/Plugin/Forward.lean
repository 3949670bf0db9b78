import Lazydns.Plugin.World
import Mathlib.Data.List.Sort

/-!
# The forward plugin

A request without a response goes to the upstreams: in concurrent mode to all of them first, the earliest success winning, and otherwise, or when all of these fail, to one after the other. The reply becomes the response as it came, but for its id over UDP. Each exchange is one step of the run; other requests move between the steps.
-/

namespace Lazydns

open Dns

namespace ForwardPlugin

def isDoh (addr : String) : Bool :=
  (stripPrefix "http://" addr).isSome || (stripPrefix "https://" addr).isSome

/-- What goes on the wire to an upstream: over UDP the id is the multiplexer's, over DoH the request's. -/
def wireQuery (env : Env) (n : Nat) (addr : String) (h : Hickory.Message) : Hickory.Message :=
  if isDoh addr then h else { h with id := env.qid n }

/-- The reply as the plugin sees it: over UDP it gets the request's id back. -/
def restoreId (request : Message) (addr : String) (reply : Message) : Message :=
  if isDoh addr then reply else { reply with id := request.id }

/-- `forward_query`: the reply or the error, and the time it took. -/
def forwardQuery (env : Env) (n : Nat) (request : Message) (addr : String) :
    Except Error Message × Nat :=
  match env.serialize request with
  | none => (.error (.dnsProtocol "Failed to serialize DNS message"), 0)
  | some h =>
    let r := env.exchange n addr (wireQuery env n addr h)
    (r.1.map (restoreId request addr), r.2)

/-- The query that goes to an upstream, as the message that its bytes encode. -/
def sentQuery (env : Env) (n : Nat) (request : Message) (addr : String) : Option Hickory.Message :=
  (env.serialize request).map (wireQuery env n addr)

/-- A reply is an upstream's to the query that was sent, with the request's id restored. -/
theorem forwardQuery_eq_ok {env : Env} {n : Nat} {request : Message} {addr : String} {m : Message}
    (h : (forwardQuery env n request addr).1 = .ok m) :
    ∃ query reply, sentQuery env n request addr = some query ∧ (env.exchange n addr query).1 = .ok reply ∧
      m = restoreId request addr reply := by
  rw [forwardQuery] at h
  rw [sentQuery]
  cases hserialize : env.serialize request with
  | none =>
    rw [hserialize] at h
    cases h
  | some query =>
    rw [hserialize] at h
    dsimp only at h
    cases hexchange : (env.exchange n addr (wireQuery env n addr query)).1 with
    | error e =>
      rw [hexchange] at h
      cases h
    | ok reply =>
      rw [hexchange] at h
      exact ⟨_, reply, rfl, hexchange, (Except.ok.inj h).symm⟩

/-! ### Concurrent queries -/

/-- The answers of all upstreams, earliest first. -/
def finishOrder (env : Env) (n : Nat) (request : Message) (p : ForwardPlugin) :
    List (Nat × Except Error Message × Nat) :=
  (p.upstreams.mapIdx fun idx u =>
    (idx, forwardQuery env (n + idx) request u.addr)).insertionSort fun a b => a.2.2 ≤ b.2.2

/-- The first success, the outcomes recorded up to it, and the time of the last one looked at. -/
def firstSuccess : List (Nat × Except Error Message × Nat) → Nat → ForwardPlugin →
    Option Message × ForwardPlugin × Nat
  | [], elapsed, p => (none, p, elapsed)
  | (idx, .ok reply, t) :: _, _, p => (some reply, p.recordOutcome idx t true, t)
  | (idx, .error _, t) :: rest, _, p => firstSuccess rest t (p.recordOutcome idx t false)

def executeConcurrent (env : Env) (i : Nat) (request : Message) (w : World) :
    Option Message × World :=
  let p := w.forwards i
  let r := firstSuccess (finishOrder env w.exchanges request p) 0 p
  (r.1, { w.setForward i r.2.1 with
    now := w.now + r.2.2
    exchanges := w.exchanges + p.upstreams.length })

/-! ### Sequential queries -/

/-- One round of `execute_sequential`: choose an upstream and ask it. The counter is a `usize`. -/
def attempt (env : Env) (i : Nat) (request : Message) (w : World) : Except Error Message × World :=
  let p := w.forwards i
  match p.selectUpstream (env.nanos w.exchanges) with
  | none => (.error (.config "No upstream servers configured"), w)
  | some idx =>
    let addr := (p.upstreams[idx]?.map Upstream.addr).getD ""
    let r := forwardQuery env w.exchanges request addr
    let p := { p with current := (p.current + 1) % 2 ^ 64 }.recordOutcome idx r.2 r.1.toBool
    (r.1, { w.setForward i p with now := w.now + r.2, exchanges := w.exchanges + 1 })

/-- `execute_sequential`, with the rounds that are left and the last error. -/
def executeSequential (env : Env) (i : Nat) (request : Message) :
    Nat → Option Error → Context → Run
  | 0, lastError, ctx =>
    .fail (.error (lastError.getD (.other "All upstream servers failed"))) ctx
  | rounds + 1, _, ctx => do
    match ← Proc.atomic (attempt env i request) with
    | .ok response => Run.done (ctx.setResponse (some response))
    | .error e => executeSequential env i request rounds (some e) ctx

/-- The race, when the plugin asks for one and has more than one upstream. -/
def race (env : Env) (i : Nat) (request : Message) (p : ForwardPlugin) :
    Proc World (Option Message) :=
  if p.concurrentQueries && decide (1 < p.upstreams.length) then
    .atomic (executeConcurrent env i request)
  else .ret none

def execute (env : Env) (i : Nat) (ctx : Context) : Run :=
  if ctx.hasResponse then .done ctx
  else do
    let p ← Proc.atomic fun w => (w.forwards i, w)
    match ← race env i ctx.request p with
    | some response => Run.done (ctx.setResponse (some response))
    | none =>
      executeSequential env i ctx.request (min p.maxAttempts p.upstreams.length) none ctx

end ForwardPlugin

end Lazydns
