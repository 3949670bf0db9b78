import Lazydns.Lib.Machine
import Lazydns.Plugin.CacheSpec

/-!
# The cache, access by access

A lookup clones the entry under the lock of its shard, judges the clone, and takes the lock once more to remove what is under the key; a store builds its entry before it pushes it; the fallback of a refresh sleeps before it removes what is under the key. Here each access to a shard and each reading of the clock is a step of its own, and the steps of all lookups and stores come in any order. Statistics, and what a lookup serves, are left out.
-/

namespace Lazydns

open Dns

namespace Accesses

/-- What is left to do of a lookup, a store or a fallback. `handled` says whether the context holds the handler; the `entry` of a job that is to remove what is under its key is the one its lookup found, which the code does not keep. -/
inductive Job where
  | found (key : String) (entry : CacheEntry) (handled : Bool)
  | live (key : String) (entry : CacheEntry) (handled : Bool)
  | popping (key : String) (entry : CacheEntry)
  | storing (key : String) (entry : CacheEntry)
  | sleeping (key : String) (entry : CacheEntry) (notBefore : Nat)
  deriving DecidableEq

structure System where
  now : Nat
  plugin : CachePlugin
  jobs : Nat → Option Job

/-- `complete` is the end of a refresh that a coordinator has run. -/
inductive Event where
  | elapse (duration : Nat)
  | lookup (t : Nat) (key : String) (handled : Bool)
  | store (t : Nat) (key : String) (response : Message)
  | job (t : Nat)
  | cleanup (i : Nat)
  | complete (key : String)

namespace System

variable (s : System)

def setJob (t : Nat) (job : Option Job) : System :=
  { s with jobs := Function.update s.jobs t job }

def setCache (cache : ShardedLruCache) : System :=
  { s with plugin := { s.plugin with cache } }

/-- `spawn_background_refresh`: without a handler the job sleeps and drops the entry. -/
def refresh (t : Nat) (key : String) (entry : CacheEntry) (handled : Bool) : System :=
  if key ∈ s.plugin.refreshingKeys then s.setJob t none
  else
    { s with plugin := { s.plugin with refreshingKeys := key :: s.plugin.refreshingKeys } }.setJob t
      (if handled then none else some (.sleeping key entry (s.now + 10)))

def jobStep (t : Nat) : Job → Option System
  | .found key entry handled =>
    some (s.setJob t (if entry.isCacheExpired s.now then some (.popping key entry)
      else some (.live key entry handled)))
  | .live key entry handled =>
    let remaining := entry.remainingTtl s.now
    if remaining = 0 then
      match s.plugin.cacheTtl with
      | some _ => some (s.refresh t key entry handled)
      | none => some (s.setJob t (some (.popping key entry)))
    else if s.plugin.enableLazycache && s.plugin.belowThreshold remaining entry.originalTtl then
      some (s.refresh t key entry handled)
    else some (s.setJob t none)
  | .popping key _ => some ((s.setCache (s.plugin.cache.pop key)).setJob t none)
  | .storing key entry => some ((s.setCache (s.plugin.cache.push key entry).2).setJob t none)
  | .sleeping key _ notBefore =>
    if s.now < notBefore then none
    else some ({ s with plugin := { s.plugin with
      cache := s.plugin.cache.pop key
      refreshingKeys := s.plugin.refreshingKeys.filter (· ≠ key) } }.setJob t none)

end System

/-- `cleanup_expired` locks one shard after the other. -/
def step (s : System) : Event → Option System
  | .elapse duration => some { s with now := s.now + duration }
  | .lookup t key handled =>
    match s.jobs t with
    | some _ => none
    | none =>
      let r := s.plugin.cache.get key
      some ((s.setCache r.2).setJob t (r.1.map fun entry => .found key entry handled))
  | .store t key response =>
    match s.jobs t with
    | some _ => none
    | none => (s.plugin.entryFor s.now response).map fun entry => s.setJob t (some (.storing key entry))
  | .job t => (s.jobs t).bind (s.jobStep t)
  | .cleanup i =>
    some (s.setCache (s.plugin.cache.setShard i
      ((s.plugin.cache.shard i).retain fun e => !e.isCacheExpired s.now)))
  | .complete key =>
    some { s with plugin := { s.plugin with
      refreshingKeys := s.plugin.refreshingKeys.filter (· ≠ key) } }

def machine : Machine System Event := ⟨step⟩

def System.idle (now : Nat) (plugin : CachePlugin) : System := ⟨now, plugin, fun _ => none⟩

section

variable (s : System) (t : Nat) (job : Option Job)

@[simp] theorem System.setJob_now : (s.setJob t job).now = s.now := rfl
@[simp] theorem System.setJob_plugin : (s.setJob t job).plugin = s.plugin := rfl
@[simp] theorem System.setJob_jobs : (s.setJob t job).jobs = Function.update s.jobs t job := rfl
@[simp] theorem System.setCache_now (cache : ShardedLruCache) : (s.setCache cache).now = s.now := rfl
@[simp] theorem System.setCache_jobs (cache : ShardedLruCache) : (s.setCache cache).jobs = s.jobs := rfl
@[simp] theorem System.setCache_cache (cache : ShardedLruCache) :
    (s.setCache cache).plugin.cache = cache := rfl

/-- Asking for a refresh leaves the table, the clock and the other jobs; it ends the job or puts it to sleep. -/
theorem System.refresh_cases (key : String) (entry : CacheEntry) (handled : Bool) :
    (s.refresh t key entry handled).now = s.now ∧
      (s.refresh t key entry handled).plugin.cache = s.plugin.cache ∧
      (s.refresh t key entry handled).plugin.cacheTtl = s.plugin.cacheTtl ∧
      ∃ job, (s.refresh t key entry handled).jobs = Function.update s.jobs t job ∧
        (job = none ∨ handled = false ∧ key ∉ s.plugin.refreshingKeys ∧
          job = some (.sleeping key entry (s.now + 10))) := by
  rw [refresh]
  split
  · exact ⟨rfl, rfl, rfl, none, rfl, .inl rfl⟩
  · rename_i hnew
    refine ⟨rfl, rfl, rfl, _, rfl, ?_⟩
    cases handled with
    | true => exact .inl rfl
    | false => exact .inr ⟨rfl, hnew, rfl⟩

end

/-! ### What a job can do -/

variable {s s' : System} {t : Nat}

/-- The job is about to remove what is under the key, for the sake of an entry that its lookup found. -/
def Removing (key : String) (entry : CacheEntry) : Job → Prop
  | .popping key' entry' => key' = key ∧ entry' = entry
  | .sleeping key' entry' _ => key' = key ∧ entry' = entry
  | _ => False

/-- A lookup wants an entry under the key removed: its time in the cache is over, or its TTL, or it starts a refresh without the handler. -/
def Condemned (s : System) (key : String) (entry : CacheEntry) (job : Job) : Prop :=
  (∃ handled, job = .found key entry handled) ∧ entry.isCacheExpired s.now = true ∨
    (∃ handled, job = .live key entry handled) ∧ entry.remainingTtl s.now = 0 ∨
    job = .live key entry false ∧ key ∉ s.plugin.refreshingKeys ∧
      (s.plugin.enableLazycache && s.plugin.belowThreshold (entry.remainingTtl s.now) entry.originalTtl) = true

/-- A job may go over from one state to the next: it pushes nothing, and removes something only where its lookup wants that. -/
def GoesOn (s : System) (job job' : Job) : Prop :=
  (∀ key entry, job' ≠ .storing key entry) ∧
    ∀ key entry, Removing key entry job' → Condemned s key entry job

/-- The step of a job leaves the clock, the configuration and the other jobs. -/
structure Moved (s s' : System) (t : Nat) (job' : Option Job) : Prop where
  now : s'.now = s.now
  cacheTtl : s'.plugin.cacheTtl = s.plugin.cacheTtl
  jobs : s'.jobs = Function.update s.jobs t job'

theorem moved_refresh {key : String} {entry : CacheEntry} {handled : Bool}
    (hwhy : entry.remainingTtl s.now = 0 ∨ (s.plugin.enableLazycache &&
      s.plugin.belowThreshold (entry.remainingTtl s.now) entry.originalTtl) = true) :
    ∃ job', Moved s (s.refresh t key entry handled) t job' ∧
      (s.refresh t key entry handled).plugin.cache = s.plugin.cache ∧
      ∀ j, job' = some j → GoesOn s (.live key entry handled) j := by
  obtain ⟨hnow, hcache, hcacheTtl, job', hjobs, hjob'⟩ := s.refresh_cases t key entry handled
  refine ⟨job', ⟨hnow, hcacheTtl, hjobs⟩, hcache, fun j hj => ?_⟩
  rcases hjob' with hnone | ⟨rfl, hnew, hsleeping⟩
  · rw [hnone] at hj
    cases hj
  · rw [hsleeping] at hj
    cases hj
    refine ⟨fun _ _ h => (nomatch h), fun k x hremoving => ?_⟩
    obtain ⟨rfl, rfl⟩ := hremoving
    exact .inr (hwhy.imp (fun hzero => ⟨⟨_, rfl⟩, hzero⟩) fun hlazy => ⟨rfl, hnew, hlazy⟩)

/-- A job removes what is under its key, pushes its entry, or leaves the table and goes on. -/
theorem job_cases (hstep : machine.step s (.job t) = some s') :
    ∃ job job', s.jobs t = some job ∧ Moved s s' t job' ∧
      ((∃ key entry, Removing key entry job ∧ s'.plugin.cache = s.plugin.cache.pop key ∧ job' = none) ∨
        (∃ key entry, job = .storing key entry ∧ s'.plugin.cache = (s.plugin.cache.push key entry).2 ∧
          job' = none) ∨
        s'.plugin.cache = s.plugin.cache ∧ ∀ j, job' = some j → GoesOn s job j) := by
  obtain ⟨job, hjob, hstep⟩ := Option.bind_eq_some_iff.mp hstep
  cases job with
  | found key entry handled =>
    rw [System.jobStep] at hstep
    cases Option.some.inj hstep
    refine ⟨_, _, hjob, ⟨rfl, rfl, rfl⟩, .inr (.inr ⟨rfl, fun j hj => ?_⟩)⟩
    split at hj
    · rename_i hexpired
      cases hj
      refine ⟨fun _ _ h => (nomatch h), fun k x hremoving => ?_⟩
      obtain ⟨rfl, rfl⟩ := hremoving
      exact .inl ⟨⟨handled, rfl⟩, hexpired⟩
    · cases hj
      exact ⟨fun _ _ h => (nomatch h), fun _ _ hremoving => hremoving.elim⟩
  | live key entry handled =>
    rw [System.jobStep] at hstep
    split at hstep
    · rename_i hzero
      split at hstep
      · cases Option.some.inj hstep
        obtain ⟨job', hmoved, hcache, hwhy⟩ := @moved_refresh s t key entry handled (.inl hzero)
        exact ⟨_, job', hjob, hmoved, .inr (.inr ⟨hcache, hwhy⟩)⟩
      · cases Option.some.inj hstep
        refine ⟨_, _, hjob, ⟨rfl, rfl, rfl⟩, .inr (.inr ⟨rfl, fun j hj => ?_⟩)⟩
        cases hj
        refine ⟨fun _ _ h => (nomatch h), fun k x hremoving => ?_⟩
        obtain ⟨rfl, rfl⟩ := hremoving
        exact .inr (.inl ⟨⟨handled, rfl⟩, hzero⟩)
    · split at hstep
      · rename_i hlazy
        cases Option.some.inj hstep
        obtain ⟨job', hmoved, hcache, hwhy⟩ := @moved_refresh s t key entry handled (.inr hlazy)
        exact ⟨_, job', hjob, hmoved, .inr (.inr ⟨hcache, hwhy⟩)⟩
      · cases Option.some.inj hstep
        exact ⟨_, _, hjob, ⟨rfl, rfl, rfl⟩, .inr (.inr ⟨rfl, fun _ hj => nomatch hj⟩)⟩
  | popping key entry =>
    cases Option.some.inj hstep
    exact ⟨_, _, hjob, ⟨rfl, rfl, rfl⟩, .inl ⟨key, entry, ⟨rfl, rfl⟩, rfl, rfl⟩⟩
  | storing key entry =>
    cases Option.some.inj hstep
    exact ⟨_, _, hjob, ⟨rfl, rfl, rfl⟩, .inr (.inl ⟨key, entry, rfl, rfl, rfl⟩)⟩
  | sleeping key entry notBefore =>
    rw [System.jobStep] at hstep
    split at hstep
    · cases hstep
    · cases Option.some.inj hstep
      exact ⟨_, _, hjob, ⟨rfl, rfl, rfl⟩, .inl ⟨key, entry, ⟨rfl, rfl⟩, rfl, rfl⟩⟩

theorem step_jobs {e : Event} (hstep : machine.step s e = some s') :
    s.now ≤ s'.now ∧ s'.plugin.cacheTtl = s.plugin.cacheTtl ∧
      ∀ u job', s'.jobs u = some job' → s.jobs u = some job' ∨
        (∃ key entry handled, job' = .found key entry handled) ∨
        (∃ key response entry, s.plugin.entryFor s.now response = some entry ∧ job' = .storing key entry) ∨
        e = .job u ∧ ∃ job, s.jobs u = some job ∧ GoesOn s job job' := by
  have hother : ∀ {t u : Nat} {j : Option Job} {job' : Job}, Function.update s.jobs t j u = some job' →
      s.jobs u = some job' ∨ u = t ∧ j = some job' := by
    intro t u j job' hjob'
    by_cases hu : u = t
    · subst hu
      rw [Function.update_self] at hjob'
      exact .inr ⟨rfl, hjob'⟩
    · rw [Function.update_of_ne hu] at hjob'
      exact .inl hjob'
  cases e with
  | elapse duration =>
    cases hstep
    exact ⟨Nat.le_add_right _ _, rfl, fun _ _ hjob => .inl hjob⟩
  | lookup t key handled =>
    simp only [machine, Accesses.step] at hstep
    split at hstep
    · cases hstep
    · cases Option.some.inj hstep
      refine ⟨le_rfl, rfl, fun u job' hjob' => (hother hjob').imp id fun ⟨_, hj⟩ => .inl ?_⟩
      obtain ⟨x, -, rfl⟩ := Option.map_eq_some_iff.mp hj
      exact ⟨key, x, handled, rfl⟩
  | store t key response =>
    simp only [machine, Accesses.step] at hstep
    split at hstep
    · cases hstep
    · obtain ⟨x, hx, rfl⟩ := Option.map_eq_some_iff.mp hstep
      refine ⟨le_rfl, rfl, fun u job' hjob' => (hother hjob').imp id fun ⟨_, hj⟩ => .inr (.inl ?_)⟩
      exact ⟨key, response, x, hx, (Option.some.inj hj).symm⟩
  | job t =>
    obtain ⟨job, j, hjob, hmoved, hwhat⟩ := job_cases hstep
    refine ⟨hmoved.now.ge, hmoved.cacheTtl, fun u job' hjob' => ?_⟩
    rw [hmoved.jobs] at hjob'
    refine (hother hjob').imp id fun ⟨hu, hj⟩ => .inr (.inr ?_)
    subst hu
    refine ⟨rfl, job, hjob, ?_⟩
    rcases hwhat with ⟨-, -, -, -, hnone⟩ | ⟨-, -, -, -, hnone⟩ | ⟨-, hgoes⟩
    · rw [hnone] at hj
      cases hj
    · rw [hnone] at hj
      cases hj
    · exact hgoes job' hj
  | cleanup i =>
    cases hstep
    exact ⟨le_rfl, rfl, fun _ _ hjob => .inl hjob⟩
  | complete key =>
    cases hstep
    exact ⟨le_rfl, rfl, fun _ _ hjob => .inl hjob⟩

/-! ### The accesses of one lookup in a row -/

theorem step_job {job : Job} (hjob : s.jobs t = some job) : machine.step s (.job t) = s.jobStep t job := by
  change (s.jobs t).bind (s.jobStep t) = _
  rw [hjob, Option.bind_some]

theorem pop_alone {key : String} {entry : CacheEntry} (hjob : s.jobs t = some (.popping key entry)) :
    ∃ s', machine.run s [.job t] = some s' ∧ s'.plugin.cache = s.plugin.cache.pop key :=
  ⟨(s.setCache (s.plugin.cache.pop key)).setJob t none, Machine.run_cons_of_step (step_job hjob) [], rfl⟩

/-- What a lookup that has found an entry goes on to do to the table. -/
theorem found_alone {key : String} {entry : CacheEntry} {handled : Bool}
    (hjob : s.jobs t = some (.found key entry handled)) (ctx : Context) :
    ∃ n s', machine.run s (List.replicate n (.job t)) = some s' ∧
      s'.plugin.cache = (s.plugin.serveEntry s.now key entry ctx).2.cache := by
  have hfound := step_job hjob
  rw [System.jobStep] at hfound
  rw [CachePlugin.serveEntry]
  by_cases hexpired : entry.isCacheExpired s.now = true
  · rw [if_pos hexpired] at hfound ⊢
    obtain ⟨s', hrun, hcache⟩ := pop_alone (s := s.setJob t (some (.popping key entry)))
      (Function.update_self ..)
    exact ⟨2, s', (Machine.run_cons_of_step hfound _).trans hrun, hcache⟩
  · rw [if_neg hexpired] at hfound ⊢
    have hlive := step_job (s := s.setJob t (some (.live key entry handled))) (Function.update_self ..)
    have hrefresh := fun now ctx c => (CachePlugin.shrinks_spawnBackgroundRefresh now ctx key c).2
    by_cases hremaining : entry.remainingTtl s.now = 0
    · simp only [System.jobStep, System.setJob_now, System.setJob_plugin, hremaining, if_true] at hlive
      dsimp only
      rw [if_pos hremaining]
      cases hcacheTtl : s.plugin.cacheTtl with
      | some L =>
        rw [hcacheTtl] at hlive
        refine ⟨2, _, (Machine.run_cons_of_step hfound _).trans (Machine.run_cons_of_step hlive []), ?_⟩
        rw [(System.refresh_cases _ _ _ _ _).2.1]
        dsimp only
        rw [hrefresh]
        rfl
      | none =>
        rw [hcacheTtl] at hlive
        obtain ⟨s', hrun, hcache⟩ := pop_alone
          (s := (s.setJob t (some (.live key entry handled))).setJob t (some (.popping key entry)))
          (Function.update_self ..)
        exact ⟨3, s', (Machine.run_cons_of_step hfound _).trans
          ((Machine.run_cons_of_step hlive _).trans hrun), hcache⟩
    · dsimp only
      rw [if_neg hremaining]
      by_cases hlazy : (s.plugin.enableLazycache &&
          s.plugin.belowThreshold (entry.remainingTtl s.now) entry.originalTtl) = true
      · simp only [System.jobStep, System.setJob_now, System.setJob_plugin, hremaining, if_false, hlazy,
          if_true] at hlive
        refine ⟨2, _, (Machine.run_cons_of_step hfound _).trans (Machine.run_cons_of_step hlive []), ?_⟩
        rw [(System.refresh_cases _ _ _ _ _).2.1, if_pos hlazy]
        dsimp only
        rw [hrefresh]
        rfl
      · simp only [System.jobStep, System.setJob_now, System.setJob_plugin, hremaining, if_false, hlazy]
          at hlive
        refine ⟨2, _, (Machine.run_cons_of_step hfound _).trans (Machine.run_cons_of_step hlive []), ?_⟩
        rw [if_neg hlazy]
        rfl

/-- With nothing in between, the accesses of a lookup do to the table what the lookup does at once. -/
theorem lookup_alone {ctx : Context} (hfree : s.jobs t = none)
    (hforeground : ctx.getBool "background_lazy_refresh" = none) (key : String) (handled : Bool) :
    ∃ n s', machine.run s (.lookup t key handled :: List.replicate n (.job t)) = some s' ∧
      s'.plugin.cache = (s.plugin.tryServeFromCache s.now key ctx).2.cache := by
  have hmark : (ctx.setMetadata "cache_checked" (.bool true)).getBool "background_lazy_refresh" = none :=
    hforeground
  have hlookup : machine.step s (.lookup t key handled) = some ((s.setCache (s.plugin.cache.get key).2).setJob t
      ((s.plugin.cache.get key).1.map fun entry => .found key entry handled)) := by
    change (match s.jobs t with | some _ => none | none => some _) = _
    rw [hfree]
  simp only [Machine.run_cons_of_step hlookup]
  rw [CachePlugin.tryServeFromCache, hmark]
  cases hget : s.plugin.cache.get key with
  | mk entry cache =>
    cases entry with
    | none => exact ⟨0, _, rfl, rfl⟩
    | some entry =>
      exact found_alone (s := (s.setCache cache).setJob t (some (.found key entry handled)))
        (Function.update_self ..) _

end Accesses

end Lazydns
