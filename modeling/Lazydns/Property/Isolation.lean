import Lazydns.Server.Agree
import Lazydns.Server.Effects
import Lazydns.Server.Transport

/-!
# What a refused request leaves behind

Requests of several clients and background refreshes share caches and limiters. A refused request of one client can be deleted from a run, and nobody else can tell, if none of its steps does anything that somebody else is served or judged by; and no cache keeps a refusal unless it keeps negative answers. A cache that does keeps the refusal of a policy like any other answer.
-/

namespace Lazydns

open Dns

/-! ### Steps that nobody else can tell -/

namespace CachePlugin

theorem get_of_peek_none {key : String} {c : ShardedLruCache} (h : c.peek key = none) :
    c.get key = (none, c) := by
  have hget : (c.shard (c.shardFor key)).get key = (none, c.shard (c.shardFor key)) := by
    rw [Lru.get, show (c.shard (c.shardFor key)).peek key = none from h]
  rw [ShardedLruCache.get, hget, ShardedLruCache.setShard, Function.update_eq_self]

private theorem getBool_checked (ctx : Context) :
    (ctx.setMetadata "cache_checked" (.bool true)).getBool "background_lazy_refresh" =
      ctx.getBool "background_lazy_refresh" := by
  simp [Context.getBool]

/-- The cache has nothing to do for this context but to count it: there is no key, the response came from a cache, the lookup is skipped or finds nothing, or the response is none to store. -/
def Quiet (env : Env) (now : Nat) (ctx : Context) (c : CachePlugin) : Prop :=
  ∀ key, makeKey env ctx.request = some key → ctx.getBool "response_from_cache" = none →
    if ctx.response = none then
      ctx.getBool "background_lazy_refresh" ≠ none ∨ c.cache.peek key = none
    else c.storedEntry now ctx = none

theorem Quiet.agree {env : Env} {now : Nat} {ctx : Context} {c : CachePlugin}
    (h : c.Quiet env now ctx) : (c.execute env now ctx).2.Agree c := by
  rw [execute]
  cases hkey : makeKey env ctx.request with
  | none => exact .refl c
  | some key =>
    dsimp only
    split
    · exact .refl c
    · rename_i hmark
      have hquiet := h key hkey (Option.not_isSome_iff_eq_none.mp hmark)
      split
      · rename_i hnone
        rw [if_pos (Option.isNone_iff_eq_none.mp hnone)] at hquiet
        rw [tryServeFromCache]
        split
        · exact .refl c
        · rename_i hskip
          rcases hquiet with hbackground | hpeek
          · refine absurd ?_ hskip
            rw [getBool_checked]
            exact Option.isSome_iff_ne_none.mpr hbackground
          · rw [get_of_peek_none hpeek]
            exact .of_stats rfl
      · rename_i hsome
        rw [if_neg fun hnone => hsome (Option.isNone_iff_eq_none.mpr hnone)] at hquiet
        rw [tryStoreResponse_eq, hquiet]
        exact .refl c

end CachePlugin

namespace RateLimitPlugin

variable {counted : IpAddr → Prop} {now : Nat} {ctx : Context} {p : RateLimitPlugin}

/-- The limiter has nothing to do for this context that others can tell: there is no address, or one that is not counted, or the limit is exceeded already. -/
def Quiet (counted : IpAddr → Prop) (now : Nat) (ctx : Context) (p : RateLimitPlugin) : Prop :=
  ∀ ip, ctx.getIp "client_ip" = some ip → counted ip → (p.shouldLimit now ip).1 = true

/-- One more query over the limit is not told from none. -/
theorem countQuery_agree {entry : Option RateLimitEntry}
    (hbound : ∀ e, entry = some e → e.count + 1 < 2 ^ 32)
    (hlimited : (p.countQuery now entry).1 = true) :
    Option.Rel (RateLimitEntry.Agree p.maxQueries) (some (p.countQuery now entry).2) entry := by
  cases entry with
  | none => cases hlimited
  | some e =>
    have hlt := hbound e rfl
    rw [countQuery] at hlimited ⊢
    by_cases hexpired : p.windowSecs * 1000 ≤ now - e.windowStart
    · rw [if_pos hexpired] at hlimited
      cases hlimited
    · rw [if_neg hexpired] at hlimited ⊢
      rw [Nat.mod_eq_of_lt hlt] at hlimited ⊢
      have hmax := of_decide_eq_true hlimited
      refine .some ⟨rfl, .inr ⟨?_, ?_⟩⟩
      · exact Nat.le_of_lt_succ hmax
      · exact Nat.le_succ _

theorem Quiet.agree (h : p.Quiet counted now ctx) (hbounded : p.Bounded) :
    (p.execute now ctx).2.Agree counted p := by
  rw [execute]
  cases hip : ctx.getIp "client_ip" with
  | none => exact .refl counted p
  | some ip =>
    have hagree : (p.shouldLimit now ip).2.Agree counted p :=
      { maxQueries := rfl
        windowSecs := rfl
        limits := fun ip' hip' => by
          rw [shouldLimit]
          dsimp only
          by_cases heq : ip' = ip
          · subst heq
            rw [Function.update_self]
            exact countQuery_agree (hbounded ip') (h ip' hip hip')
          · rw [Function.update_of_ne heq]
            exact (Agree.refl counted p).limits ip' hip' }
    dsimp only
    generalize p.shouldLimit now ip = r at hagree
    obtain ⟨limited, q⟩ := r
    cases limited with
    | false => exact hagree
    | true => exact hagree

end RateLimitPlugin

/-- A step that does nothing to the shared state, or only something that requests from counted addresses cannot tell: a lookup that finds nothing, a response that is not stored, one more query over the limit. -/
inductive QuietStep (env : Env) (counted : IpAddr → Prop) (w : World) : (World → World) → Prop
  | idle {act : World → World} (h : act w = w) : QuietStep env counted w act
  | cache (i : Nat) (ctx : Context) (h : (w.caches i).Quiet env w.now ctx) :
      QuietStep env counted w fun w => (Leaf.executeCache env i ctx w).2
  | rateLimit (i : Nat) (ctx : Context) (h : (w.limiters i).Quiet counted w.now ctx) :
      QuietStep env counted w fun w => (Leaf.executeRateLimit i ctx w).2

theorem QuietStep.agree {env : Env} {counted : IpAddr → Prop} {w : World} {act : World → World}
    (h : QuietStep env counted w act) (hbounded : w.Bounded) : (act w).Agree counted w := by
  cases h with
  | idle h =>
    rw [h]
    exact .refl counted w
  | cache i ctx h =>
    have hagree := (World.Agree.refl counted w).setCache i h.agree
    rw [show w.setCache i (w.caches i) = w by rw [World.setCache, Function.update_eq_self]] at hagree
    exact hagree
  | rateLimit i ctx h =>
    have hagree := (World.Agree.refl counted w).setLimiter i (h.agree (hbounded i))
    rw [show w.setLimiter i (w.limiters i) = w by rw [World.setLimiter, Function.update_eq_self]] at hagree
    exact hagree

/-! ### Refusals -/

/-- A policy has refused the client. -/
def TraceEvent.isRefusal : TraceEvent → Bool
  | aclDenied _ | rateLimitExceeded _ => true
  | _ => false

/-- A policy refused the client on the way. -/
def Outcome.denied (r : Outcome) : Bool := r.2.trace.any TraceEvent.isRefusal

/-- A policy refused the client, and REFUSED is the response. -/
def Outcome.refused (r : Outcome) : Bool := r.denied && r.2.response.any fun m => m.rcode == .refused

/-- A policy has refused the client or will, however the run goes on. -/
def Run.IsDenied (p : Run) : Prop :=
  Proc.Within (fun _ => True) (fun _ _ => True) (fun r : Outcome => r.denied = true) p

/-- A request of a client that ended refused. -/
def refusedRequest {ι : Type} (client : IpAddr) (P : Server ι) (i : ι) : Bool :=
  match P.jobs i with
  | some (.client _ req, .ret r) => req.clientInfo.any (fun info => info.ip == client) && r.refused
  | _ => false

/-- The addresses that the requests outside `gone` come from. -/
def KeptAddress {ι : Type} (gone : ι → Prop) (events : List (Event ι Job Outside)) (ip : IpAddr) :
    Prop :=
  ∃ i entry req info, .start i (.client entry req) ∈ events ∧ ¬ gone i ∧
    req.clientInfo = some info ∧ info.ip = ip

/-- No response REFUSED is in a cache that was not there before. -/
def StoresNoRefusal (w w' : World) : Prop :=
  ∀ i key entry, (w'.caches i).cache.peek key = some entry → entry.response.rcode = .refused →
    (w.caches i).cache.peek key = some entry

/-! ### What is stored without negative caching -/

/-- No cache keeps negative answers. -/
def World.Positive (w : World) : Prop := ∀ i, (w.caches i).negativeCache = false

/-- Without negative caching the step stores no REFUSED. -/
def PositiveStep (w w' : World) : Prop := w.Positive → StoresNoRefusal w w'

theorem storesNoRefusal_of_shrinks {w w' : World} (h : ∀ i, (w.caches i).Shrinks (w'.caches i)) :
    StoresNoRefusal w w' := fun i _ _ hpeek _ => (h i).mem hpeek

theorem storesNoRefusal_of_agree {counted : IpAddr → Prop} {w w' : World} (h : w'.Agree counted w) :
    StoresNoRefusal w w' := by
  intro i key entry hpeek _
  rw [h.caches i]
  exact hpeek

theorem CacheStep.positive {env : Env} {ctx : Context} {w w' : World} (h : CacheStep env ctx w w') :
    PositiveStep w w' := by
  intro hpositive i key entry hpeek hrefused
  rcases h i with hshrinks | ⟨key', entry', -, -, hentry, hstored⟩
  · exact hshrinks.mem hpeek
  · by_cases hkey : key = key'
    · subst hkey
      rw [hstored.self] at hpeek
      cases hpeek
      cases hresponse : ctx.response with
      | none =>
        rw [CachePlugin.storedEntry, hresponse, Option.bind_none, ite_self] at hentry
        cases hentry
      | some m =>
        obtain ⟨-, hfor⟩ := (CachePlugin.storedEntry_eq_some hresponse).mp hentry
        rw [(CachePlugin.entryFor_eq_some hfor).1] at hrefused
        rw [CachePlugin.entryFor, if_pos (by rw [hrefused]; decide), hpositive i] at hfor
        cases hfor
    · rcases hstored.other key hkey with heq | hnone
      · exact heq.symm.trans hpeek
      · rw [hnone] at hpeek
        cases hpeek

section

variable (env : Env) (reg : Registry) (fuel : Nat)

/-- What is asked of every process of the server. -/
def PositiveRun (p : Run) : Prop := Proc.Within (fun _ => True) PositiveStep (fun _ => True) p

theorem Job.finishRefresh_positive (i : Nat) (task : RefreshTask) (r : Outcome) :
    PositiveRun (finishRefresh i task r) := by
  refine Proc.within_atomic.mpr ?_
  intro w _
  refine ⟨fun _ => storesNoRefusal_of_shrinks fun j => ?_, trivial⟩
  exact World.shrinks_setCache (CachePlugin.shrinks_finishTask _ _) j

theorem Job.body_positive (job : Job) : PositiveRun (body env reg fuel job) := by
  have hprocess : PositiveRun (PluginHandler.process env reg fuel job.entry job.request) := by
    have hwithin : Run.Within (fun _ => True) PositiveStep (fun _ => True) (fun _ => True)
        (PluginHandler.process env reg fuel job.entry job.request) := by
      have htrivial : ControlFree fun _ => True :=
        ⟨fun _ _ _ _ => trivial, fun _ _ _ => trivial, fun _ _ _ _ => trivial⟩
      refine PluginHandler.process_within htrivial trivial (Registry.all_of_forall ?_ reg) ?_ ?_ fuel
        fun _ => trivial
      · intro l ctx _
        refine Proc.Within.mono
          (Leaf.execute_within (A := fun _ => True) (fun _ _ _ _ _ _ => trivial) l ctx) ?_ ?_
        · intro w w' _ hstep
          exact hstep.positive
        · intro r _
          exact ⟨trivial, fun _ _ => trivial⟩
      · intro i ctx _ w _ _
        exact storesNoRefusal_of_shrinks fun j => .refl _
      · intro w _ _
        exact storesNoRefusal_of_shrinks fun j => .refl _
    exact Proc.Within.mono hwithin (fun _ _ _ h => h) fun _ _ => trivial
  cases job with
  | client entry req => exact hprocess
  | refresh i task => exact Proc.Within.bind hprocess fun r _ => finishRefresh_positive i task r

theorem Job.cancelled_positive (job : Job) : PositiveRun (cancelled job) := by
  cases job with
  | client entry req => trivial
  | refresh i task => exact finishRefresh_positive i task _

end

section

variable {ι : Type} [DecidableEq ι]

variable (env : Env) (reg : Registry) (fuel : Nat)

/-- Every step of every job of a run stores no REFUSED while no cache keeps negative answers. -/
theorem positive_along {P : Server ι} (hP : P.JobsIn PositiveRun) (events : List (Event ι Job Outside)) :
    P.Along (service env reg fuel) (fun P event => ∀ i job act next, event = .run i →
      P.jobs i = some (job, .step act next) → PositiveStep P.shared (act P.shared)) events := by
  induction events generalizing P with
  | nil => trivial
  | cons event events ih =>
    refine ⟨?_, ih ?_⟩
    · intro i job act next _ hjob
      exact (hP i job _ hjob P.shared trivial).1
    · have hnext : ∀ (act : World → World) (next : World → Run) (s : World),
          PositiveRun (Proc.step act next) → PositiveRun (next s) := fun _ _ s h => (h s trivial).2
      have hrun : ((P.run (service env reg fuel) [event]).JobsIn PositiveRun) :=
        Pool.jobsIn_run (Job.body_positive env reg fuel) Job.cancelled_positive hnext hP
      exact hrun

/-- Requests whose steps nobody can tell can be deleted from a run. -/
theorem result_without {w : World} {events : List (Event ι Job Outside)} {gone : ι → Prop}
    [DecidablePred gone]
    (hnames : ∀ i e, .outside i e ∈ events → ¬ gone i)
    (hquiet : Pool.Along (service env reg fuel) (fun P event => P.shared.Bounded ∧
      ∀ i job act next, event = .run i → gone i → P.jobs i = some (job, .step act next) →
        QuietStep env (KeptAddress gone events) P.shared act) (Pool.init w) events) {i : ι}
    (hkept : ¬ gone i) :
    ((Pool.init w).run (service env reg fuel) (events.filter fun event => ¬ gone event.job)).result i =
      ((Pool.init w).run (service env reg fuel) events).result i := by
  have hstart : ∀ i job, .start i job ∈ events → ¬ gone i →
      job = job ∧ ∀ info, job.request.clientInfo = some info → KeptAddress gone events info.ip := by
    intro i job hmem hi
    refine ⟨rfl, ?_⟩
    intro info hinfo
    cases job with
    | client entry req => exact ⟨i, entry, req, info, hmem, hi, hinfo, rfl⟩
    | refresh j task => cases hinfo
  have halong : Pool.Along (service env reg fuel) (fun P event => P.shared.Bounded ∧
      P.Silent (World.Agree (KeptAddress gone events)) gone event) (Pool.init w) events := by
    refine Pool.Along.mono ?_ hquiet
    intro P event h
    obtain ⟨hbounded, hstep⟩ := h
    refine ⟨hbounded, ?_⟩
    intro i job act next hevent hi hjob s hs
    exact ((hstep i job act next hevent hi hjob).agree hbounded).trans hs
  have hpurged := (Pool.purged_init (World.Agree.refl (KeptAddress gone events) w)).run
    (service_blind (KeptAddress gone events) env reg fuel) (Event.purge_filter hstart hnames) halong
  have hrel := hpurged.kept i hkept
  rw [Pool.result, Pool.result]
  generalize ((Pool.init w).run (service env reg fuel) events).jobs i = job at hrel
  generalize ((Pool.init w).run (service env reg fuel)
    (events.filter fun event => ¬ gone event.job)).jobs i = job' at hrel
  cases hrel with
  | absent => rfl
  | @both t t' p p' ht hsim =>
    cases p with
    | ret r =>
      cases p' with
      | ret r' =>
        rw [Proc.sim_ret] at hsim
        rw [hsim]
      | step act next => simp [Proc.Sim] at hsim
    | step act next =>
      cases p' with
      | ret r' => simp [Proc.Sim] at hsim
      | step act' next' => rfl

end

/-! ### Isolation -/

/-- An access list for 10.0.0.0/8, behind a cache and before an upstream server. -/
def Registry.cachedAcl : Registry :=
  .ofList [("cache", .leaf (.cache 0)),
    ("main", .sequence none [.exec (.leaf (.cache 0)),
      .exec (.leaf (.plain (.queryAcl ⟨[⟨.v4 0x0A000000 8, .allow⟩], .deny⟩))),
      .exec (.leaf (.forward 0))])]

/-- Two clients ask for the same name, one after the other. -/
def askedTwice (first second : BitVec 32) : List (Event Nat Job Outside) :=
  .start 0 (.client "main" (UdpServer.requestContext ⟨.v4 first, 5353⟩ (.ask 7 "a." .A))) ::
    List.replicate 5 (.run 0) ++
  .start 1 (.client "main" (UdpServer.requestContext ⟨.v4 second, 5353⟩ (.ask 8 "a." .A))) ::
    List.replicate 5 (.run 1)

section

variable {ι : Type} [DecidableEq ι]

variable (env : Env) (reg : Registry) (fuel : Nat)

/-- The requests of a client that a run refuses. -/
def refusedIn (w : World) (events : List (Event ι Job Outside)) (client : IpAddr) (i : ι) : Bool :=
  refusedRequest client ((Pool.init w).run (service env reg fuel) events) i

/-- Deleting the refused requests of a client changes no other answer, and no request or refresh that a policy refuses leaves a REFUSED in a cache. -/
structure RefusalsIsolated (w : World) (events : List (Event ι Job Outside)) (client : IpAddr) : Prop where
  answers : ∀ i, refusedIn env reg fuel w events client i = false →
    ((Pool.init w).run (service env reg fuel)
        (events.filter fun event => ¬ refusedIn env reg fuel w events client event.job = true)).result i =
      ((Pool.init w).run (service env reg fuel) events).result i
  stores : Pool.Along (service env reg fuel) (fun P event => ∀ i job act next, event = .run i →
    P.jobs i = some (job, .step act next) → Run.IsDenied (Proc.step act next) →
      StoresNoRefusal P.shared (act P.shared)) (Pool.init w) events

/-- Refusals are isolated in every run in which the refused requests of the client do nothing that anybody else can tell, and what a policy refuses is not stored, or meets no cache that keeps negative answers. -/
theorem refusalsIsolated_of_quiet {w : World} {events : List (Event ι Job Outside)} {client : IpAddr}
    (hnames : ∀ i e, .outside i e ∈ events → refusedIn env reg fuel w events client i = false)
    (hquiet : Pool.Along (service env reg fuel) (fun P event => P.shared.Bounded ∧
      ∀ i job act next, event = .run i → refusedIn env reg fuel w events client i = true →
        P.jobs i = some (job, .step act next) →
          QuietStep env (KeptAddress (fun i => refusedIn env reg fuel w events client i = true) events)
            P.shared act)
      (Pool.init w) events)
    (hnegative : Pool.Along (service env reg fuel) (fun P event => ∀ i job act next, event = .run i →
      P.jobs i = some (job, .step act next) → Run.IsDenied (Proc.step act next) →
        P.shared.Positive ∨ QuietStep env (fun _ => False) P.shared act) (Pool.init w) events) :
    RefusalsIsolated env reg fuel w events client where
  answers := by
    intro i hkept
    refine result_without env reg fuel ?_ hquiet ?_
    · intro i e hmem hrefused
      rw [hnames i e hmem] at hrefused
      cases hrefused
    · rw [hkept]
      exact Bool.false_ne_true
  stores := by
    have hinit : (Pool.init w : Server ι).JobsIn PositiveRun := fun _ _ _ hjob => nomatch hjob
    have hall := (hquiet.and hnegative).and (positive_along env reg fuel hinit events)
    refine hall.mono ?_
    intro P event h i job act next hevent hjob hdenied
    obtain ⟨⟨⟨hbounded, -⟩, hnegative⟩, hstep⟩ := h
    rcases hnegative i job act next hevent hjob hdenied with hpositive | hquiet
    · exact hstep i job act next hevent hjob hpositive
    · exact storesNoRefusal_of_agree (hquiet.agree hbounded)

end

/-- The two requests in a server without negative caching: the refused one looks the name up, finds nothing and stores nothing. -/
theorem refusalsIsolated_positive :
    RefusalsIsolated (.answering (.ok Message.new)) .cachedAcl 4 World.fresh
      (askedTwice 0xC0000201 0x0A000001) (.v4 0xC0000201) := by
  have hkept : refusedIn (.answering (.ok Message.new)) .cachedAcl 4 World.fresh
      (askedTwice 0xC0000201 0x0A000001) (.v4 0xC0000201) 1 ≠ true := by
    decide +kernel
  have hbounded : ∀ w : World, w.limiters = World.fresh.limiters → w.Bounded := by
    intro w h i ip entry hentry
    rw [h] at hentry
    cases hentry
  have hpositive : ∀ w : World, (w.caches 0).negativeCache = false →
      (∀ n, (w.caches (n + 1)).negativeCache = false) → w.Positive := by
    intro w hzero hsucc i
    cases i with
    | zero => exact hzero
    | succ n => exact hsucc n
  refine refusalsIsolated_of_quiet _ _ _ ?_ ?_ ?_
  · intro i e h
    simp [askedTwice] at h
  · refine ⟨⟨hbounded _ rfl, ?_⟩, ⟨hbounded _ rfl, ?_⟩, ⟨hbounded _ rfl, ?_⟩, ⟨hbounded _ rfl, ?_⟩,
      ⟨hbounded _ rfl, ?_⟩, ⟨hbounded _ rfl, ?_⟩, ⟨hbounded _ rfl, ?_⟩, ⟨hbounded _ rfl, ?_⟩,
      ⟨hbounded _ rfl, ?_⟩, ⟨hbounded _ rfl, ?_⟩, ⟨hbounded _ rfl, ?_⟩, ⟨hbounded _ rfl, ?_⟩, trivial⟩
    all_goals
      intro i job act next hevent hrefused hjob
      cases hevent
    all_goals try exact absurd hrefused hkept
    all_goals cases hjob
    -- what is left are the three steps of the refused request
    · exact .idle rfl
    · refine .cache 0 _ ?_
      intro key _ _
      exact .inr rfl
    · refine .cache 0 _ ?_
      intro key _ _
      rfl
  · refine ⟨?_, ?_, ?_, ?_, ?_, ?_, ?_, ?_, ?_, ?_, ?_, ?_, trivial⟩
    all_goals
      intro i job act next hevent hjob hdenied
      exact .inl (hpositive _ rfl fun _ => rfl)

/-- With negative caching, the client 10.0.0.1 gets the refusal of 192.0.2.1. -/
theorem not_refusalsIsolated_negative :
    ¬ RefusalsIsolated (.answering (.ok Message.new)) .cachedAcl 4
      { World.fresh with caches := fun _ => { CachePlugin.new 1024 with negativeCache := true } }
      (askedTwice 0xC0000201 0x0A000001) (.v4 0xC0000201) := by
  intro h
  have hanswer := congrArg (Option.map fun r : Outcome => r.2.response.map Message.rcode)
    (h.answers 1 (by decide +kernel))
  exact absurd hanswer (by decide +kernel)

end Lazydns
