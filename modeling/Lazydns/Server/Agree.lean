import Lazydns.Plugin.Frame
import Lazydns.Server.Service

/-!
# States that requests cannot tell apart

Two shared states agree for the addresses that are counted if they differ only in the caches' statistics, in the rate limits of other addresses, and in how far a limit is exceeded. A request from a counted address, or from none, takes the same steps from both and ends alike.
-/

namespace Lazydns

open Dns

/-! ### Caches up to their statistics -/

namespace CachePlugin

/-- The same cache, whatever it has counted. -/
def Agree (c c' : CachePlugin) : Prop := c' = { c with stats := c'.stats }

namespace Agree

variable {c c' : CachePlugin}

theorem refl (c : CachePlugin) : c.Agree c := rfl

theorem trans {c'' : CachePlugin} (h : c.Agree c') (h' : c'.Agree c'') : c.Agree c'' := by
  rw [Agree, h', h]

theorem of_stats {s : CacheStats} (h : c' = { c with stats := s }) : c.Agree c' := by
  rw [Agree, h]

/-- What does not look at the statistics agrees on caches that agree. -/
theorem map {f : CachePlugin → CachePlugin} (hf : ∀ c s, ∃ s', f { c with stats := s } = { f c with stats := s' })
    (h : c.Agree c') : (f c).Agree (f c') := by
  obtain ⟨s', heq⟩ := hf c c'.stats
  rw [← h] at heq
  exact of_stats heq

end Agree

section

variable (env : Env) (now : Nat) (key : String) (ctx : Context) (c : CachePlugin) (s : CacheStats)

theorem spawnBackgroundRefresh_stats :
    spawnBackgroundRefresh now ctx key { c with stats := s } =
      { spawnBackgroundRefresh now ctx key c with stats := s } := by
  rw [spawnBackgroundRefresh, spawnBackgroundRefresh]
  dsimp only
  split
  · rfl
  · split <;> rfl

theorem serveEntry_stats (entry : CacheEntry) : ∃ s',
    serveEntry now key entry ctx { c with stats := s } =
      ((serveEntry now key entry ctx c).1, { (serveEntry now key entry ctx c).2 with stats := s' }) := by
  rw [serveEntry, serveEntry]
  split
  · exact ⟨_, rfl⟩
  · dsimp only
    have hspawn : ∀ ctx, spawnBackgroundRefresh now ctx key { c with stats := s.recordHit } =
        { spawnBackgroundRefresh now ctx key { c with stats := c.stats.recordHit } with
          stats := s.recordHit } :=
      fun ctx => spawnBackgroundRefresh_stats now key ctx { c with stats := c.stats.recordHit } s.recordHit
    split
    · split
      · exact ⟨_, congrArg (Prod.mk _) (hspawn _)⟩
      · exact ⟨_, rfl⟩
    · refine ⟨s.recordHit, congrArg (Prod.mk _) ?_⟩
      split
      · exact hspawn _
      · rfl

theorem tryServeFromCache_stats : ∃ s',
    tryServeFromCache now key ctx { c with stats := s } =
      ((tryServeFromCache now key ctx c).1,
        { (tryServeFromCache now key ctx c).2 with stats := s' }) := by
  rw [tryServeFromCache, tryServeFromCache]
  dsimp only
  split
  · exact ⟨s, rfl⟩
  · cases c.cache.get key with
    | mk found cache =>
      cases found with
      | none => exact ⟨_, rfl⟩
      | some entry => exact serveEntry_stats now key _ { c with cache } s entry

theorem execute_stats : ∃ s', execute env now ctx { c with stats := s } =
    ((execute env now ctx c).1, { (execute env now ctx c).2 with stats := s' }) := by
  rw [execute, execute]
  cases makeKey env ctx.request with
  | none => exact ⟨s, rfl⟩
  | some key =>
    dsimp only
    split
    · exact ⟨s, rfl⟩
    · split
      · exact tryServeFromCache_stats now key ctx c s
      · rw [tryStoreResponse, tryStoreResponse]
        split
        · exact ⟨s, rfl⟩
        · have hentry : ctx.response.bind (({ c with stats := s } : CachePlugin).entryFor now) =
              ctx.response.bind (c.entryFor now) := rfl
          rw [hentry]
          cases ctx.response.bind (c.entryFor now) with
          | none => exact ⟨s, rfl⟩
          | some entry => exact ⟨_, rfl⟩

end

theorem Agree.execute (env : Env) (now : Nat) (ctx : Context) {c c' : CachePlugin} (h : c.Agree c') :
    (c'.execute env now ctx).1 = (c.execute env now ctx).1 ∧
      (c.execute env now ctx).2.Agree (c'.execute env now ctx).2 := by
  obtain ⟨s', heq⟩ := execute_stats env now ctx c c'.stats
  rw [← h] at heq
  rw [heq]
  exact ⟨rfl, .of_stats rfl⟩

end CachePlugin

/-! ### Rate limits -/

/-- The same window, with the same count or two counts that are both at the limit. -/
structure RateLimitEntry.Agree (max : Nat) (e e' : RateLimitEntry) : Prop where
  windowStart : e'.windowStart = e.windowStart
  count : e'.count = e.count ∨ max ≤ e'.count ∧ e'.count ≤ e.count

theorem RateLimitEntry.Agree.trans {max : Nat} {e e' e'' : RateLimitEntry} (h : e.Agree max e')
    (h' : e'.Agree max e'') : e.Agree max e'' where
  windowStart := h'.windowStart.trans h.windowStart
  count := by
    have hfirst := h.count
    have hsecond := h'.count
    omega

namespace RateLimitPlugin

/-- The same limiter for the addresses that are counted. -/
structure Agree (counted : IpAddr → Prop) (p p' : RateLimitPlugin) : Prop where
  maxQueries : p'.maxQueries = p.maxQueries
  windowSecs : p'.windowSecs = p.windowSecs
  limits : ∀ ip, counted ip → Option.Rel (RateLimitEntry.Agree p.maxQueries) (p.limits ip) (p'.limits ip)

/-- No count is about to overflow. -/
def Bounded (p : RateLimitPlugin) : Prop :=
  ∀ ip entry, p.limits ip = some entry → entry.count + 1 < 2 ^ 32

variable {counted : IpAddr → Prop} {p p' : RateLimitPlugin}

theorem Agree.refl (counted : IpAddr → Prop) (p : RateLimitPlugin) : p.Agree counted p where
  maxQueries := rfl
  windowSecs := rfl
  limits := fun ip _ => by
    cases p.limits ip with
    | none => exact .none
    | some entry => exact .some ⟨rfl, .inl rfl⟩

theorem Agree.trans {p'' : RateLimitPlugin} (h : p.Agree counted p') (h' : p'.Agree counted p'') :
    p.Agree counted p'' where
  maxQueries := h'.maxQueries.trans h.maxQueries
  windowSecs := h'.windowSecs.trans h.windowSecs
  limits := fun ip hip => by
    have hfirst := h.limits ip hip
    have hsecond := h'.limits ip hip
    rw [h.maxQueries] at hsecond
    generalize p.limits ip = o at hfirst
    generalize p'.limits ip = o' at hfirst hsecond
    generalize p''.limits ip = o'' at hsecond
    cases hfirst with
    | none =>
      cases hsecond with
      | none => exact .none
    | some he =>
      cases hsecond with
      | some he' => exact .some (he.trans he')

theorem Agree.countQuery (h : p.Agree counted p') (now : Nat) {o o' : Option RateLimitEntry}
    (hbound : ∀ entry, o = some entry → entry.count + 1 < 2 ^ 32)
    (ho : Option.Rel (RateLimitEntry.Agree p.maxQueries) o o') :
    (p'.countQuery now o').1 = (p.countQuery now o).1 ∧
      (p.countQuery now o).2.Agree p.maxQueries (p'.countQuery now o').2 := by
  cases ho with
  | none => exact ⟨rfl, rfl, .inl rfl⟩
  | @some e e' he =>
    have hlt := hbound e rfl
    rw [RateLimitPlugin.countQuery, RateLimitPlugin.countQuery, h.windowSecs, h.maxQueries, he.windowStart]
    split
    · exact ⟨rfl, rfl, .inl rfl⟩
    · have hmod : (e.count + 1) % 2 ^ 32 = e.count + 1 := Nat.mod_eq_of_lt hlt
      have hle : e'.count ≤ e.count := by
        rcases he.count with heq | ⟨-, hle⟩
        · exact heq.le
        · exact hle
      have hmod' : (e'.count + 1) % 2 ^ 32 = e'.count + 1 := Nat.mod_eq_of_lt (by omega)
      dsimp only
      rw [hmod, hmod']
      rcases he.count with heq | ⟨hmax, -⟩
      · rw [heq]
        exact ⟨rfl, rfl, .inl rfl⟩
      · refine ⟨?_, rfl, .inr ⟨by dsimp only; omega, by dsimp only; omega⟩⟩
        rw [decide_eq_true (by omega), decide_eq_true (by omega)]

theorem Agree.execute (h : p.Agree counted p') (hbound : p.Bounded) (now : Nat) {ctx : Context}
    (hctx : ∀ ip, ctx.getIp "client_ip" = some ip → counted ip) :
    (p'.execute now ctx).1 = (p.execute now ctx).1 ∧
      (p.execute now ctx).2.Agree counted (p'.execute now ctx).2 := by
  rw [RateLimitPlugin.execute, RateLimitPlugin.execute]
  cases hip : ctx.getIp "client_ip" with
  | none => exact ⟨rfl, h⟩
  | some ip =>
    obtain ⟨hlimit, hentry⟩ := h.countQuery now (hbound ip) (h.limits ip (hctx ip hip))
    have hagree : (p.shouldLimit now ip).2.Agree counted (p'.shouldLimit now ip).2 :=
      { maxQueries := h.maxQueries
        windowSecs := h.windowSecs
        limits := fun ip' hip' => by
          simp only [shouldLimit]
          by_cases heq : ip' = ip
          · subst heq
            rw [Function.update_self, Function.update_self]
            exact .some hentry
          · rw [Function.update_of_ne heq, Function.update_of_ne heq]
            exact h.limits ip' hip' }
    have hfst : (p'.shouldLimit now ip).1 = (p.shouldLimit now ip).1 := hlimit
    dsimp only
    generalize p.shouldLimit now ip = r at hagree hfst
    generalize p'.shouldLimit now ip = r' at hagree hfst
    obtain ⟨limited, q⟩ := r
    obtain ⟨limited', q'⟩ := r'
    obtain rfl : limited' = limited := hfst
    cases limited' <;> exact ⟨rfl, hagree⟩

theorem Agree.cleanup (h : p.Agree counted p') (now : Nat) :
    (p.cleanup now).Agree counted (p'.cleanup now) where
  maxQueries := h.maxQueries
  windowSecs := h.windowSecs
  limits := fun ip hip => by
    have hlimits := h.limits ip hip
    rw [RateLimitPlugin.cleanup, RateLimitPlugin.cleanup]
    dsimp only
    generalize p.limits ip = o at hlimits
    generalize p'.limits ip = o' at hlimits
    cases hlimits with
    | none => exact .none
    | @some e e' he =>
      rw [h.windowSecs, Option.filter_some, Option.filter_some, he.windowStart]
      split
      · exact .some he
      · exact .none

end RateLimitPlugin

/-! ### The shared state -/

/-- No limiter's count is about to overflow. -/
def World.Bounded (w : World) : Prop := ∀ i, (w.limiters i).Bounded

/-- The same shared state for the addresses that are counted. -/
structure World.Agree (counted : IpAddr → Prop) (w w' : World) : Prop where
  rest : w' = { w with caches := w'.caches, limiters := w'.limiters }
  caches : ∀ i, (w.caches i).Agree (w'.caches i)
  limiters : ∀ i, (w.limiters i).Agree counted (w'.limiters i)

/-- The step looks at neither caches nor limiters, and leaves them as they are. -/
def Bystander {α : Type} (f : World → α × World) : Prop :=
  ∀ w caches limiters, f { w with caches, limiters } = ((f w).1, { (f w).2 with caches, limiters })

namespace World.Agree

variable {counted : IpAddr → Prop} {w w' w'' : World}

theorem refl (counted : IpAddr → Prop) (w : World) : w.Agree counted w where
  rest := rfl
  caches := fun _ => .refl _
  limiters := fun _ => .refl counted _

theorem trans (h : w.Agree counted w') (h' : w'.Agree counted w'') : w.Agree counted w'' where
  rest := by
    rw [h'.rest, h.rest]
  caches := fun i => (h.caches i).trans (h'.caches i)
  limiters := fun i => (h.limiters i).trans (h'.limiters i)

theorem now (h : w.Agree counted w') : w'.now = w.now := by
  rw [h.rest]

theorem bystander {α : Type} {f : World → α × World} (hf : Bystander f) (h : w.Agree counted w') :
    (f w').1 = (f w).1 ∧ (f w).2.Agree counted (f w').2 := by
  have hself : f w = ((f w).1, { (f w).2 with caches := w.caches, limiters := w.limiters }) :=
    hf w w.caches w.limiters
  have hother : f w' = ((f w).1, { (f w).2 with caches := w'.caches, limiters := w'.limiters }) := by
    rw [h.rest]
    exact hf w w'.caches w'.limiters
  have hcaches : (f w).2.caches = w.caches := congrArg (fun r => r.2.caches) hself
  have hlimiters : (f w).2.limiters = w.limiters := congrArg (fun r => r.2.limiters) hself
  rw [hother]
  refine ⟨rfl, rfl, ?_, ?_⟩
  · intro i
    rw [hcaches]
    exact h.caches i
  · intro i
    rw [hlimiters]
    exact h.limiters i

theorem setCache (h : w.Agree counted w') (i : Nat) {c c' : CachePlugin} (hc : c.Agree c') :
    (w.setCache i c).Agree counted (w'.setCache i c') where
  rest := by
    rw [World.setCache, World.setCache, h.rest]
  caches := fun j => by
    rw [World.setCache_caches, World.setCache_caches]
    by_cases hj : j = i
    · subst hj
      rwa [Function.update_self, Function.update_self]
    · rw [Function.update_of_ne hj, Function.update_of_ne hj]
      exact h.caches j
  limiters := h.limiters

theorem setLimiter (h : w.Agree counted w') (i : Nat) {p p' : RateLimitPlugin} (hp : p.Agree counted p') :
    (w.setLimiter i p).Agree counted (w'.setLimiter i p') where
  rest := by
    rw [World.setLimiter, World.setLimiter, h.rest]
  caches := h.caches
  limiters := fun j => by
    rw [World.setLimiter, World.setLimiter]
    dsimp only
    by_cases hj : j = i
    · subst hj
      rwa [Function.update_self, Function.update_self]
    · rw [Function.update_of_ne hj, Function.update_of_ne hj]
      exact h.limiters j

end World.Agree

/-! ### Plugins -/

/-- The request is from a counted address, or from none. -/
def Counted (counted : IpAddr → Prop) (ctx : Context) : Prop := ∀ ip, ctx.getIp "client_ip" = some ip → counted ip

/-- From states that agree the process takes the same steps, and returns the same. -/
def Blind {α : Type} (counted : IpAddr → Prop) (p : Proc World α) : Prop :=
  p.Sim World.Bounded (World.Agree counted) (fun a b => b = a) p

section

variable {counted : IpAddr → Prop} {env : Env} {ctx : Context}

theorem blind_ret {α : Type} (a : α) : Blind counted (Proc.ret a : Proc World α) := Proc.sim_ret.mpr rfl

theorem blind_bind {α β : Type} {p : Proc World α} {k : α → Proc World β} (hp : Blind counted p)
    (hk : ∀ a, Blind counted (k a)) : Blind counted (p >>= k) := by
  refine Proc.Sim.bind hp ?_
  intro a b hab
  subst hab
  exact hk b

theorem blind_atomic {α : Type} {f : World → α × World} (hf : Bystander f) :
    Blind counted (Proc.atomic f) :=
  Proc.sim_atomic fun _ _ _ hw => World.Agree.bystander hf hw

theorem ForwardPlugin.blind_execute (i : Nat) : Blind counted (ForwardPlugin.execute env i ctx) := by
  have hattempt : Bystander (attempt env i ctx.request) := by
    intro w caches limiters
    rw [attempt, attempt]
    dsimp only
    cases (w.forwards i).selectUpstream (env.nanos w.exchanges) with
    | none => rfl
    | some idx => rfl
  have hsequential : ∀ rounds lastError,
      Blind counted (executeSequential env i ctx.request rounds lastError ctx) := by
    intro rounds
    induction rounds with
    | zero => exact fun _ => blind_ret _
    | succ rounds ih =>
      intro lastError
      refine blind_bind (blind_atomic hattempt) fun r => ?_
      cases r with
      | ok response => exact blind_ret _
      | error e => exact ih (some e)
  rw [ForwardPlugin.execute]
  split
  · exact blind_ret _
  · refine blind_bind (blind_atomic fun _ _ _ => rfl) fun p => blind_bind ?_ fun r => ?_
    · rw [race]
      split
      · exact blind_atomic fun _ _ _ => rfl
      · exact blind_ret _
    · cases r with
      | some response => exact blind_ret _
      | none => exact hsequential _ none

theorem Leaf.blind_execute (l : Leaf) (hctx : Counted counted ctx) : Blind counted (l.execute env ctx) := by
  have hstep : ∀ f : World → Context × World, Bystander f → Blind counted (Run.step f) := by
    intro f hf
    refine blind_atomic ?_
    intro w caches limiters
    dsimp only
    rw [hf w caches limiters]
  cases l with
  | plain p => exact blind_ret _
  | cache i =>
    refine Proc.sim_atomic ?_
    intro w w' _ hw
    have hexec := (hw.caches i).execute env w.now ctx
    dsimp only [Leaf.executeCache]
    rw [hw.now, hexec.1]
    exact ⟨rfl, hw.setCache i hexec.2⟩
  | rateLimit i =>
    refine Proc.sim_atomic ?_
    intro w w' hbounded hw
    have hexec := (hw.limiters i).execute (hbounded i) w.now hctx
    dsimp only [Leaf.executeRateLimit]
    rw [hw.now, hexec.1]
    exact ⟨rfl, hw.setLimiter i hexec.2⟩
  | domainValidator i => exact hstep _ fun _ _ _ => rfl
  | reverseLookup i => exact hstep _ fun _ _ _ => rfl
  | forward i => exact ForwardPlugin.blind_execute i
  | sleep duration => exact hstep _ fun _ _ _ => rfl
  | downloader => exact blind_atomic fun _ _ _ => rfl

end

/-! ### The client's address -/

section

variable {counted : IpAddr → Prop} {env : Env} {ctx c : Context}

theorem LocalPlugin.execute_getIp (p : LocalPlugin) {ip : IpAddr} (h : (p.execute env ctx).getIp "client_ip" = some ip) :
    ctx.getIp "client_ip" = some ip := by
  have hset : ∀ (key : String) (value : MetaValue), (∀ ip, .ip ip ≠ value) →
      (ctx.setMetadata key value).getIp "client_ip" = some ip → ctx.getIp "client_ip" = some ip := by
    intro key value hvalue hip
    rw [Context.getIp, Context.setMetadata_metadata] at hip
    by_cases hkey : "client_ip" = key
    · subst hkey
      rw [Function.update_self] at hip
      cases value with
      | ip value => exact absurd rfl (hvalue value)
      | _ => cases hip
    · rw [Function.update_of_ne hkey] at hip
      exact hip
  have hkeys : "client_ip" ∉ p.keys → ctx.getIp "client_ip" = some ip := by
    intro hkey
    rw [Context.getIp, (p.execute_grows ctx).metadata _ hkey] at h
    exact h
  have hstring : ∀ (key text : String), (ctx.setMetadata key (.string text)).getIp "client_ip" = some ip →
      ctx.getIp "client_ip" = some ip := by
    intro key text
    exact hset key _ (by intro ip h; cases h)
  have hrules : ∀ key, (ctx.setMetadata key .rules).getIp "client_ip" = some ip → ctx.getIp "client_ip" = some ip := by
    intro key
    exact hset key _ (by intro ip h; cases h)
  cases p with
  | mark p =>
    revert h
    rw [execute, MarkPlugin.execute]
    cases p.markValue with
    | none => exact hset _ _ (by intro ip h; cases h)
    | some value => exact hstring _ _
  | querySummary p => exact hstring _ _ h
  | geoIp p =>
    revert h
    rw [execute, GeoIpPlugin.execute]
    cases ctx.response with
    | none => exact id
    | some response =>
      dsimp only
      cases response.answers.findSome? fun rr => (answerIp rr).bind p.lookup with
      | none => exact id
      | some country => exact hstring _ _
  | geoSite p =>
    revert h
    rw [execute, GeoSitePlugin.execute]
    cases ctx.request.questions.head? with
    | none => exact id
    | some q =>
      dsimp only
      split
      · exact id
      · cases p.lookup q.qname with
        | none => exact id
        | some category => exact hstring _ _
  | domainSet name => exact hrules _ h
  | ipSetDataset name => exact hrules _ h
  | _ => exact hkeys (by simp [keys, RETURN_FLAG])

theorem Counted.controlFree (counted : IpAddr → Prop) : ControlFree (Counted counted) where
  record := fun _ _ _ h => h
  setFlag := fun ctx value h ip hip => by
    rw [Context.getIp, Context.setMetadata_metadata, Function.update_of_ne (by decide)] at hip
    exact h ip hip
  remove := fun ctx key hkey h ip hip => by
    have hne : "client_ip" ≠ key := by
      rintro rfl
      exact absurd hkey (by decide)
    rw [Context.getIp, Context.removeMetadata_metadata, Function.update_of_ne hne] at hip
    exact h ip hip

theorem Counted.of_grows {keys : List String} (h : Counted counted ctx) (hgrows : ctx.Grows keys c)
    (hkeys : "client_ip" ∉ keys) : Counted counted c := by
  intro ip hip
  rw [Context.getIp, hgrows.metadata _ hkeys] at hip
  exact h ip hip

theorem Leaf.execute_counted {I : World → Prop} (l : Leaf) (h : Counted counted ctx) :
    (l.execute env ctx).Within I (fun _ _ => True) (Counted counted) (fun _ => True) := by
  have hothers : "client_ip" ∉ l.keys →
      (l.execute env ctx).Within I (fun _ _ => True) (Counted counted) (fun _ => True) := by
    intro hkeys
    refine Proc.Within.mono (execute_within (A := fun _ => True) (fun _ _ _ _ _ _ => trivial) l ctx)
      (fun _ _ _ _ => trivial) ?_
    intro r hr
    exact ⟨h.of_grows hr.1.grows hkeys, fun _ _ => trivial⟩
  cases l with
  | plain p => exact Run.within_done fun ip hip => h ip (p.execute_getIp hip)
  | _ => exact hothers (by simp [keys, RETURN_FLAG])

end

/-! ### The server -/

section

variable {counted : IpAddr → Prop} {env : Env} {reg : Registry}

/-- From states that agree the run takes the same steps and ends alike, with the client's address as it was. -/
def BlindRun (counted : IpAddr → Prop) (p : Run) : Prop :=
  Proc.Sim World.Bounded (World.Agree counted) (fun r r' : Outcome => r' = r ∧ Counted counted r.2) p p

theorem blindRun_closed (counted : IpAddr → Prop) : Run.Closed (Counted counted) (BlindRun counted) where
  done := fun h => Proc.sim_ret.mpr ⟨rfl, h⟩
  outOfFuel := fun h => Proc.sim_ret.mpr ⟨rfl, h⟩
  bind := fun hp hk => by
    refine Proc.Sim.bind hp ?_
    rintro r r' ⟨hr, hcounted⟩
    subst hr
    exact hk r' hcounted
  andThen := fun hp hk => by
    refine Proc.Sim.bind hp ?_
    rintro ⟨result, ctx⟩ r' ⟨hr, hcounted⟩
    subst hr
    cases result with
    | ok u => exact hk ctx hcounted
    | error stop => exact Proc.sim_ret.mpr ⟨rfl, hcounted⟩

theorem Leaf.blindRun (l : Leaf) {ctx : Context} (hctx : Counted counted ctx) : BlindRun counted (l.execute env ctx) := by
  have hwithin : Proc.Within World.Bounded (fun _ _ => True) (fun r : Outcome => Counted counted r.2)
      (l.execute env ctx) :=
    Proc.Within.mono (l.execute_counted hctx) (fun _ _ _ _ => trivial) fun _ hr => hr.1
  exact Proc.Sim.within (l.blind_execute hctx) hwithin

theorem initialContext_counted {now : Nat} {entry : String} {req : RequestContext}
    (h : ∀ info, req.clientInfo = some info → counted info.ip) :
    Counted counted (PluginHandler.initialContext now entry req) := by
  intro ip hip
  cases hinfo : req.clientInfo with
  | none =>
    rw [PluginHandler.initialContext, hinfo] at hip
    simp [PluginHandler.setClientInfo, Context.getIp, PluginHandler.markRefresh_metadata, Context.new] at hip
  | some info =>
    rw [PluginHandler.initialContext, hinfo] at hip
    simp [PluginHandler.setClientInfo, Context.getIp, PluginHandler.markRefresh_metadata, Context.new] at hip
    rw [← hip]
    exact h info hinfo

theorem PluginHandler.process_blind (fuel : Nat) (entry : String) {req : RequestContext}
    (h : ∀ info, req.clientInfo = some info → counted info.ip) :
    BlindRun counted (process env reg fuel entry req) := by
  refine Proc.Sim.bind (S := fun a b => b = a ∧ Counted counted a) ?_ ?_
  · refine Proc.sim_atomic ?_
    intro w w' _ hw
    rw [hw.now]
    exact ⟨⟨rfl, initialContext_counted h⟩, hw⟩
  · rintro ctx ctx' ⟨hctx, hcounted⟩
    subst hctx
    refine answer_closed (Counted.controlFree counted) (blindRun_closed counted)
      (Registry.all_of_forall (fun l ctx hctx => l.blindRun hctx) reg) ?_ fuel entry hcounted
    intro i ctx hctx
    refine Proc.sim_atomic ?_
    intro w w' _ hw
    have hsave : Bystander (saveStep i ctx) := fun _ _ _ => rfl
    obtain ⟨hsame, hagree⟩ := hw.bystander hsave
    rw [hsame]
    exact ⟨⟨rfl, hctx⟩, hagree⟩

/-! ### Jobs and outside changes -/

theorem CachePlugin.Agree.finishTask {c c' : CachePlugin} (h : c.Agree c') (key : String) :
    (c.finishTask key).Agree (c'.finishTask key) := by
  exact h.map fun c s => ⟨s, rfl⟩

theorem Job.finishRefresh_blind (i : Nat) (task : RefreshTask) {r : Outcome} (hr : Counted counted r.2) :
    BlindRun counted (finishRefresh i task r) := by
  refine Proc.sim_atomic ?_
  intro w w' _ hw
  exact ⟨⟨rfl, hr⟩, hw.setCache i ((hw.caches i).finishTask task.key)⟩

theorem Job.body_blind (fuel : Nat) {job : Job} (h : ∀ info, job.request.clientInfo = some info → counted info.ip) :
    BlindRun counted (body env reg fuel job) := by
  cases job with
  | client entry req => exact PluginHandler.process_blind fuel entry h
  | refresh i task =>
    refine Proc.Sim.bind (PluginHandler.process_blind fuel task.entryName h) ?_
    rintro r r' ⟨hr, hcounted⟩
    subst hr
    exact finishRefresh_blind i task hcounted

theorem Job.cancelled_blind {job : Job} : BlindRun counted (cancelled job) := by
  have hnone : Counted counted job.noAnswer.2 := by
    intro ip hip
    cases hip
  cases job with
  | client entry req => exact Proc.sim_ret.mpr ⟨rfl, hnone⟩
  | refresh i task => exact finishRefresh_blind i task hnone

theorem CachePlugin.runSpawned_stats (now n : Nat) (c : CachePlugin) (s : CacheStats) :
    runSpawned now n { c with stats := s } = { runSpawned now n c with stats := s } := by
  rw [runSpawned, runSpawned]
  dsimp only
  cases c.spawned[n]? with
  | none => rfl
  | some job =>
    cases job with
    | enqueue task =>
      dsimp only
      cases c.coordinator.bind fun q => enqueue q task <;> rfl
    | invalidate key notBefore =>
      dsimp only
      split <;> rfl

theorem CachePlugin.Agree.takeTask {c c' : CachePlugin} (h : c.Agree c') :
    Option.Rel (fun r r' : RefreshTask × CachePlugin => r'.1 = r.1 ∧ r.2.Agree r'.2) c.takeTask c'.takeTask := by
  rw [CachePlugin.takeTask, CachePlugin.takeTask, h]
  dsimp only
  cases c.coordinator with
  | none => exact .none
  | some q =>
    dsimp only
    cases q.queue with
    | nil => exact .none
    | cons task rest => exact .some ⟨rfl, rfl⟩

/-- Outside changes keep the agreement, and start the same jobs. -/
theorem Outside.apply_agree (e : Outside) {w w' : World} (hw : w.Agree counted w') :
    (e.apply w).2.Agree counted (e.apply w').2 ∧ (e.apply w').1 = (e.apply w).1 := by
  cases e with
  | elapse duration =>
    have helapse : Bystander fun w : World => ((none : Option Job), { w with now := w.now + duration }) :=
      fun _ _ _ => rfl
    exact ⟨(hw.bystander helapse).2, rfl⟩
  | cleanupCache i =>
    refine ⟨?_, rfl⟩
    rw [apply, apply, hw.now]
    exact hw.setCache i ((hw.caches i).map fun c s => ⟨_, rfl⟩)
  | cleanupLimiter i =>
    refine ⟨?_, rfl⟩
    rw [apply, apply, hw.now]
    exact hw.setLimiter i ((hw.limiters i).cleanup w.now)
  | clearCache i =>
    exact ⟨hw.setCache i ((hw.caches i).map fun c s => ⟨s, rfl⟩), rfl⟩
  | runSpawned i n =>
    refine ⟨?_, rfl⟩
    rw [apply, apply, hw.now]
    exact hw.setCache i ((hw.caches i).map fun c s => ⟨s, CachePlugin.runSpawned_stats w.now n c s⟩)
  | takeTask i =>
    have htake := (hw.caches i).takeTask
    rw [apply, apply]
    generalize (w.caches i).takeTask = taken at htake
    generalize (w'.caches i).takeTask = taken' at htake
    cases htake with
    | none => exact ⟨hw, rfl⟩
    | some h =>
      dsimp only
      rw [h.1]
      exact ⟨hw.setCache i h.2, rfl⟩

/-- The server cannot tell states that agree apart, as long as its requests come from counted addresses. -/
theorem service_blind (counted : IpAddr → Prop) (env : Env) (reg : Registry) (fuel : Nat) :
    (service env reg fuel).Blind World.Bounded (World.Agree counted) (fun _ r r' => r' = r)
      (fun job job' => job' = job ∧ ∀ info, job.request.clientInfo = some info → counted info.ip) where
  body := fun job job' h => by
    obtain ⟨rfl, hcounted⟩ := h
    exact Proc.Sim.mono (Job.body_blind fuel hcounted) fun _ _ hr => hr.1
  cancelled := fun job job' h => by
    obtain ⟨rfl, -⟩ := h
    exact Proc.Sim.mono Job.cancelled_blind fun _ _ hr => hr.1
  outside := fun e w w' _ hw => by
    obtain ⟨hagree, hjob⟩ := e.apply_agree hw
    refine ⟨hagree, ?_⟩
    change Option.Rel _ (e.apply w).1 (e.apply w').1
    rw [hjob]
    cases hstarted : (e.apply w).1 with
    | none => exact .none
    | some job =>
      refine .some ⟨rfl, ?_⟩
      intro info hinfo
      cases e with
      | takeTask i =>
        rw [Outside.apply] at hstarted
        split at hstarted
        · cases hstarted
          cases hinfo
        · cases hstarted
      | _ => cases hstarted

end

end Lazydns
