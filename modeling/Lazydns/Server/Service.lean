import Lazydns.Lib.Pool
import Lazydns.Server.HandlerRules

/-!
# The server as a whole

Requests of clients and the refreshes of the caches' workers are jobs over one shared state, taken by the runtime in any order, step by step. From outside come the passing of time, the periodic clean-ups, the spawned jobs of the caches and the administrator's clearing of a cache.
-/

namespace Lazydns

open Dns

/-- A client's request for an entry plugin, or a refresh that a worker of a cache took from its queue. -/
inductive Job where
  | client (entry : String) (req : RequestContext)
  | refresh (i : Nat) (task : RefreshTask)

namespace Job

def entry : Job → String
  | client entry _ => entry
  | refresh _ task => task.entryName

/-- The request the handler is called with; a refresh has no client. -/
def request : Job → RequestContext
  | client _ req => req
  | refresh _ task => RequestContext.new task.message .udp

end Job

inductive Outside where
  | elapse (duration : Nat)
  | cleanupCache (i : Nat)
  | cleanupLimiter (i : Nat)
  | clearCache (i : Nat)
  | runSpawned (i n : Nat)
  | takeTask (i : Nat)

namespace Outside

/-- An outside change; only a worker that takes a task starts a job. -/
def apply (e : Outside) (w : World) : Option Job × World :=
  match e with
  | elapse duration => (none, { w with now := w.now + duration })
  | cleanupCache i => (none, w.setCache i ((w.caches i).cleanupExpired w.now))
  | cleanupLimiter i => (none, w.setLimiter i ((w.limiters i).cleanup w.now))
  | clearCache i => (none, w.setCache i (w.caches i).clear)
  | runSpawned i n => (none, w.setCache i ((w.caches i).runSpawned w.now n))
  | takeTask i =>
    match (w.caches i).takeTask with
    | some (task, c) => (some (.refresh i task), w.setCache i c)
    | none => (none, w)

end Outside

namespace Job

/-- What a worker does once its refresh is over, whatever came of it. -/
def finishRefresh (i : Nat) (task : RefreshTask) (r : Outcome) : Run :=
  .atomic fun w => (r, w.setCache i ((w.caches i).finishTask task.key))

def body (env : Env) (reg : Registry) (fuel : Nat) (job : Job) : Run :=
  let p := PluginHandler.process env reg fuel job.entry job.request
  match job with
  | client _ _ => p
  | refresh i task => p >>= finishRefresh i task

/-- What a cancelled job leaves: no answer. -/
def noAnswer (job : Job) : Outcome :=
  (.error (.error (.other "cancelled")), Context.new job.request.message)

/-- A refresh that times out is finished all the same. -/
def cancelled (job : Job) : Run :=
  match job with
  | client _ _ => .ret job.noAnswer
  | refresh i task => finishRefresh i task job.noAnswer

end Job

def service (env : Env) (reg : Registry) (fuel : Nat) : Service World Job Outside Outcome where
  body := Job.body env reg fuel
  cancelled := Job.cancelled
  outside := Outside.apply

abbrev Server (ι : Type) := Pool ι World Job Outcome

/-- What the handler returns for a job's outcome. -/
def Outcome.answer (r : Outcome) : Except Stop Message := r.1.map fun _ => PluginHandler.finish r.2

theorem PluginHandler.handle_eq (env : Env) (reg : Registry) (fuel : Nat) (entry : String)
    (req : RequestContext) :
    handle env reg fuel entry req = Outcome.answer <$> process env reg fuel entry req := by
  rw [map_eq_pure_bind]
  rfl

/-! ### What the whole server keeps -/

section

variable {env : Env} {reg : Registry} {fuel : Nat} {I : World → Prop} {T : Job → Prop}
  {P : Job → Context → Prop}

/-- What every plugin keeps on behalf of every job, and every outside change keeps, the server keeps. -/
theorem service_keeps (hP : ∀ job, ControlFree (P job))
    (hreg : ∀ job, T job → reg.All (Leaf.Preserves env I (fun _ w => I w) (P job) fun _ => True))
    (hsave : ∀ job, T job → ∀ i ctx, P job ctx → ∀ w, I w → I (PluginHandler.saveStep i ctx w).2)
    (hinit : ∀ job, T job → ∀ now, P job (PluginHandler.initialContext now job.entry job.request))
    (hnone : ∀ job, T job → P job (Context.new job.request.message))
    (hfinish : ∀ i key w, I w → I (w.setCache i ((w.caches i).finishTask key)))
    (hout : ∀ e w, I w → I (Outside.apply e w).2 ∧ ∀ job, (Outside.apply e w).1 = some job → T job) :
    (service env reg fuel).Keeps I T fun job r => P job r.2 where
  outside := hout
  body := fun job hjob => by
    have hrun : Proc.Within I (fun _ w => I w) (fun r : Outcome => P job r.2)
        (PluginHandler.process env reg fuel job.entry job.request) :=
      Proc.Within.mono (PluginHandler.process_within (hP job) trivial (hreg job hjob)
        (hsave job hjob) (fun _ hw => hw) fuel (hinit job hjob)) (fun _ _ _ h => h) fun _ h => h.1
    cases job with
    | client entry req => exact hrun
    | refresh i task =>
      exact Proc.Within.bind hrun fun r hr =>
        Proc.within_atomic.mpr fun w hw => ⟨hfinish i task.key w hw, hr⟩
  cancelled := fun job hjob => by
    cases job with
    | client entry req => exact hnone _ hjob
    | refresh i task =>
      exact Proc.within_atomic.mpr fun w hw => ⟨hfinish i task.key w hw, hnone _ hjob⟩

end

/-! ### Two servers in step -/

/-- Two jobs that start out looking the same. -/
inductive Job.Alike : Job → Job → Prop
  | client {entry : String} {req req' : RequestContext}
      (h : ∀ now, (PluginHandler.initialContext now entry req).Same id
        (PluginHandler.initialContext now entry req')) : Alike (.client entry req) (.client entry req')
  | refresh (i : Nat) (task : RefreshTask) : Alike (.refresh i task) (.refresh i task)

section

variable {env : Env} {reg : Registry} {fuel : Nat} {I : World → Prop}
  {L : RateLimitPlugin → RateLimitPlugin → Prop}

theorem Outside.apply_same (hcleanup : ∀ p p' now, L p p' → L (p.cleanup now) (p'.cleanup now))
    (e : Outside) {w w' : World} (h : w.Same id L w') :
    (e.apply w).2.Same id L (e.apply w').2 ∧ (e.apply w).1 = (e.apply w').1 := by
  have hcaches := h.caches_eq
  cases e with
  | elapse duration =>
    refine ⟨{ h with now := ?_ }, rfl⟩
    change w.now + duration = w'.now + duration
    rw [h.now]
  | cleanupCache i =>
    rw [apply, apply, hcaches, h.now]
    exact ⟨h.setCache i rfl, rfl⟩
  | cleanupLimiter i =>
    rw [apply, apply, h.now]
    exact ⟨h.setLimiter i (hcleanup _ _ _ (h.limiters i)), rfl⟩
  | clearCache i =>
    rw [apply, apply, hcaches]
    exact ⟨h.setCache i rfl, rfl⟩
  | runSpawned i n =>
    rw [apply, apply, hcaches, h.now]
    exact ⟨h.setCache i rfl, rfl⟩
  | takeTask i =>
    rw [apply, apply, hcaches]
    cases (w.caches i).takeTask with
    | none => exact ⟨h, rfl⟩
    | some taken => exact ⟨h.setCache i rfl, rfl⟩

theorem Job.finishRefresh_sim (i : Nat) (task : RefreshTask) {r r' : Outcome} (hr : r.1 = r'.1)
    (hctx : r.2.Same id r'.2) :
    (finishRefresh i task r).Sim id I L (finishRefresh i task r') := by
  refine Proc.sim_atomic fun w w' _ h => ⟨⟨hr, hctx⟩, ?_⟩
  rw [h.caches_eq]
  exact h.setCache i rfl

theorem Job.body_sim (hL : LimiterSim I L) {job job' : Job} (h : job.Alike job') :
    (body env reg fuel job).Sim id I L (body env reg fuel job') := by
  cases h with
  | client h => exact PluginHandler.process_sim env.idBlind_id hL fuel _ h
  | refresh i task =>
    refine Proc.Sim.bind (PluginHandler.process_sim env.idBlind_id hL fuel _ fun now => .refl _) ?_
    exact fun r r' hr => finishRefresh_sim i task hr.1 hr.2

theorem Job.cancelled_sim {job job' : Job} (h : job.Alike job') :
    (cancelled job).Sim id I L (cancelled job') := by
  cases h with
  | @client entry req req' h =>
    refine Proc.sim_ret.mpr ⟨rfl, ?_⟩
    have hmessage := (h 0).request
    rw [PluginHandler.initialContext_request, PluginHandler.initialContext_request] at hmessage
    exact ⟨hmessage, rfl, fun _ _ => rfl, rfl⟩
  | refresh i task => exact finishRefresh_sim i task rfl (.refl _)

/-- Two outcomes that look the same. -/
def Outcome.Same (r r' : Outcome) : Prop := r.1 = r'.1 ∧ r.2.Same id r'.2

theorem Outcome.Same.answer_eq {r r' : Outcome} (h : r.Same r') : r.answer = r'.answer := by
  have hresponse : r.2.response = r'.2.response := by
    have hmap := h.2.response
    rwa [show (Message.view id) = id from rfl, Option.map_id, id, id] at hmap
  have hrequest : r.2.request = r'.2.request := h.2.request
  rw [answer, answer, h.1, PluginHandler.finish, PluginHandler.finish, hresponse, hrequest]

end

/-! ### A server to try things on -/

/-- An environment in which every upstream gives the same reply at once. Names are taken apart at their dots. -/
def Env.answering (reply : Except Error Message) : Env where
  toLowercase := fun s => String.ofList (s.toList.map Char.toLower)
  parseIp := fun _ => none
  fromUtf8 := fun s => some ((s.toList.splitOn '.').map fun label => label.flatMap String.utf8EncodeChar)
  emits := fun _ => true
  size := fun _ => 512
  exchange := fun _ _ _ => (reply, 0)
  qid := fun _ => 0
  nanos := fun _ => 0
  download := fun _ => .ok ()

/-- The state of a server that has just started. -/
def World.fresh : World where
  now := 0
  caches := fun _ => CachePlugin.new 1024
  limiters := fun _ => RateLimitPlugin.new 100 60
  validators := fun _ => ⟨true, .empty 1000 (by decide)⟩
  reverses := fun _ => ⟨true, 7200, fun _ => none⟩
  forwards := fun _ => .new ["192.0.2.53"]
  exchanges := 0
  downloads := 0

def Registry.ofList (plugins : List (String × Plugin)) : Registry :=
  plugins.foldr (fun p reg => reg.insert p.1 p.2) ∅

def Dns.Message.ask (id : UInt16) (qname : String) (qtype : RecordType) : Message :=
  { Message.new with id, questions := [⟨qname, qtype, .IN⟩] }

end Lazydns
