import Lazydns.Lib.Machine
import Lazydns.Plugin.CacheSpec

/-!
# One cache and its background refreshes

A cache with the clock and the tasks its refresh workers have taken, as a machine: requests are executed, expired entries cleaned up, spawned jobs run, and workers take tasks and finish them, in any order. For one key, `Tracked` says that what keeps the key from being refreshed once more is a refresh that is on its way.
-/

namespace Lazydns

open Dns

namespace Background

/-- `running` holds the tasks that the workers have taken and not finished. -/
structure System where
  now : Nat
  cache : CachePlugin
  running : List RefreshTask

inductive Event where
  | elapse (duration : Nat)
  | execute (ctx : Context)
  | cleanup
  | runSpawned (i : Nat)
  | takeTask
  | finishTask (i : Nat)
  | shutdown

namespace System

variable (s : System)

def execute (env : Env) (ctx : Context) : System :=
  { s with cache := (s.cache.execute env s.now ctx).2 }

/-- At the shutdown the cache gives up its coordinator; the workers go on with what is queued. -/
def shutdown : System :=
  { s with
    cache := { s.cache with coordinator := none }
    running := s.running ++ (s.cache.coordinator.map RefreshCoordinator.queue).getD [] }

/-- A refresh of the key is in the queue, or a worker has it. -/
def Queued (key : String) : Prop :=
  (∃ q, s.cache.coordinator = some q ∧ ∃ task ∈ q.queue, task.key = key) ∨
    ∃ task ∈ s.running, task.key = key

/-- A refresh of the key has been handed to the runtime, or is queued or in progress. -/
def Refreshing (key : String) : Prop :=
  (∃ task, .enqueue task ∈ s.cache.spawned ∧ task.key = key) ∨ s.Queued key

/-- Nothing has been spawned yet. -/
structure Fresh : Prop where
  refreshingKeys : s.cache.refreshingKeys = []
  spawned : s.cache.spawned = []
  processing : ∀ q, s.cache.coordinator = some q → q.processing = []

end System

def step (env : Env) (s : System) : Event → Option System
  | .elapse duration => some { s with now := s.now + duration }
  | .execute ctx => some (s.execute env ctx)
  | .cleanup => some { s with cache := s.cache.cleanupExpired s.now }
  | .runSpawned i => some { s with cache := s.cache.runSpawned s.now i }
  | .takeTask => s.cache.takeTask.map fun r => { s with cache := r.2, running := r.1 :: s.running }
  | .finishTask i => s.running[i]?.map fun task =>
      { s with cache := s.cache.finishTask task.key, running := s.running.eraseIdx i }
  | .shutdown => some s.shutdown

def machine (env : Env) : Machine System Event := ⟨step env⟩

/-! ### Who keeps a key from being refreshed -/

/-- The handler and the entry that the plugin handler leaves in every context. -/
structure HasHandler (ctx : Context) : Prop where
  handler : (ctx.getHandler "lazy_refresh_handler").isSome
  entry : (ctx.getString "lazy_refresh_entry").isSome

/-- If the key counts as being refreshed it is, and no job is there that drops its entry. -/
structure Tracked (key : String) (s : System) : Prop where
  refreshing : key ∈ s.cache.refreshingKeys → s.Refreshing key
  processing : ∀ q, s.cache.coordinator = some q → key ∈ q.processing → s.Queued key
  kept : ∀ notBefore, .invalidate key notBefore ∉ s.cache.spawned

variable {env : Env} {key : String} {s s' : System} {ctx : Context}

theorem System.Fresh.tracked (h : s.Fresh) (key : String) : Tracked key s where
  refreshing := fun hmem => by
    rw [h.refreshingKeys] at hmem
    cases hmem
  processing := fun q hq hmem => by
    rw [h.processing q hq] at hmem
    cases hmem
  kept := fun notBefore hmem => by
    rw [h.spawned] at hmem
    cases hmem

structure SameRefreshes (c c' : CachePlugin) : Prop where
  refreshingKeys : c'.refreshingKeys = c.refreshingKeys
  spawned : c'.spawned = c.spawned
  coordinator : c'.coordinator = c.coordinator

theorem Tracked.of_same {c : CachePlugin} (h : Tracked key s) (hsame : SameRefreshes s.cache c) (now : Nat) :
    Tracked key { s with now, cache := c } := by
  obtain ⟨hkeys, hspawned, hcoordinator⟩ := hsame
  obtain ⟨hrefreshing, hprocessing, hkept⟩ := h
  constructor
  · simp only [System.Refreshing, System.Queued, hkeys, hspawned, hcoordinator] at hrefreshing ⊢
    exact hrefreshing
  · simp only [System.Queued, hcoordinator] at hprocessing ⊢
    exact hprocessing
  · simp only [hspawned]
    exact hkept

theorem hasHandler_setMetadata (h : HasHandler ctx) {name : String}
    (hname : name ≠ "lazy_refresh_handler" ∧ name ≠ "lazy_refresh_entry") (value : MetaValue) :
    HasHandler (ctx.setMetadata name value) where
  handler := by
    rw [Context.getHandler, Context.setMetadata_metadata, Function.update_of_ne (Ne.symm hname.1)]
    exact h.handler
  entry := by
    rw [Context.getString, Context.setMetadata_metadata, Function.update_of_ne (Ne.symm hname.2)]
    exact h.entry

theorem hasHandler_served (h : HasHandler ctx) (entry : CacheEntry) (ttl : Nat) :
    HasHandler (CachePlugin.serveCachedResponse (ctx.setMetadata "cache_checked" (.bool true)) entry ttl) := by
  have hchecked := @hasHandler_setMetadata ctx h "cache_checked" (by decide) (.bool true)
  have hserved : HasHandler ((ctx.setMetadata "cache_checked" (.bool true)).setResponse (some
      { CachePlugin.updateTtls entry.response ttl with
        id := ctx.request.id
        questions := ctx.request.questions })) := ⟨hchecked.handler, hchecked.entry⟩
  exact @hasHandler_setMetadata _ hserved "response_from_cache" (by decide) (.bool true)

/-- A run of a cache spawns at most one refresh, of the key that is looked up. -/
theorem execute_refreshes (env : Env) (now : Nat) (ctx : Context) (c : CachePlugin) :
    SameRefreshes c (c.execute env now ctx).2 ∨
      ∃ key c₁ ctx₁, CachePlugin.makeKey env ctx.request = some key ∧ ctx.response = none ∧
        ctx.getBool "background_lazy_refresh" = none ∧ SameRefreshes c c₁ ∧
        (HasHandler ctx → HasHandler ctx₁) ∧
        (c.execute env now ctx).2 = c₁.spawnBackgroundRefresh now ctx₁ key := by
  rcases CachePlugin.execute_cases env now ctx c with heq | ⟨hnone, key, hkey, heq⟩ | ⟨-, key, entry, -, -, heq⟩
  · rw [heq]
    exact .inl ⟨rfl, rfl, rfl⟩
  · rw [heq, CachePlugin.tryServeFromCache]
    split
    · exact .inl ⟨rfl, rfl, rfl⟩
    · rename_i hforeground
      have hforeground : ctx.getBool "background_lazy_refresh" = none := by
        rwa [Option.not_isSome_iff_eq_none] at hforeground
      split
      · exact .inl ⟨rfl, rfl, rfl⟩
      · rename_i entry cache _
        rw [CachePlugin.serveEntry]
        dsimp only
        split
        · exact .inl ⟨rfl, rfl, rfl⟩
        · split
          · split
            · exact .inr ⟨key, { c with cache, stats := c.stats.recordHit }, _, hkey, hnone, hforeground,
                ⟨rfl, rfl, rfl⟩, fun h => hasHandler_served h entry _, rfl⟩
            · exact .inl ⟨rfl, rfl, rfl⟩
          · split
            · exact .inr ⟨key, { c with cache, stats := c.stats.recordHit }, _, hkey, hnone, hforeground,
                ⟨rfl, rfl, rfl⟩, fun h => hasHandler_served h entry _, rfl⟩
            · exact .inl ⟨rfl, rfl, rfl⟩
  · rw [heq]
    exact .inl ⟨rfl, rfl, rfl⟩

theorem coordinator_execute (env : Env) (now : Nat) (ctx : Context) (c : CachePlugin) :
    (c.execute env now ctx).2.coordinator = c.coordinator := by
  rcases execute_refreshes env now ctx c with hsame | ⟨key, c₁, ctx₁, -, -, -, hsame, -, heq⟩
  · exact hsame.coordinator
  · rw [heq, ← hsame.coordinator, CachePlugin.spawnBackgroundRefresh]
    split
    · rfl
    · dsimp only
      split <;> rfl

/-! ### One event -/

/-- A lookup with the handler in its context leaves the key with a refresh that is on its way. -/
theorem Tracked.spawn (h : Tracked key s) {key' : String} (hhandler : key' = key → HasHandler ctx)
    (now : Nat) :
    let s' := { s with cache := s.cache.spawnBackgroundRefresh now ctx key' }
    Tracked key s' ∧ (key' = key → s'.Refreshing key) := by
  rw [CachePlugin.spawnBackgroundRefresh]
  by_cases hmem : key' ∈ s.cache.refreshingKeys
  · rw [if_pos hmem]
    refine ⟨h, fun heq => h.refreshing ?_⟩
    rwa [← heq]
  · rw [if_neg hmem]
    dsimp only
    have hmono : ∀ job, s.Refreshing key → System.Refreshing { s with cache := { s.cache with
        refreshingKeys := key' :: s.cache.refreshingKeys
        refreshes := s.cache.refreshes + 1
        spawned := s.cache.spawned ++ [job] } } key := by
      intro job hrefreshing
      refine hrefreshing.imp (fun hspawned => ?_) id
      obtain ⟨task, htask, hkey⟩ := hspawned
      exact ⟨task, List.mem_append_left _ htask, hkey⟩
    split
    · rename_i entryName _ _
      have hnew : key' = key → System.Refreshing { s with cache := { s.cache with
          refreshingKeys := key' :: s.cache.refreshingKeys
          refreshes := s.cache.refreshes + 1
          spawned := s.cache.spawned ++
            [.enqueue ⟨key', { ctx.request with id := 0xFFFF }, entryName⟩] } } key := fun heq =>
        .inl ⟨_, List.mem_append_right _ (List.mem_singleton_self _), heq⟩
      refine ⟨⟨fun hin => ?_, h.processing, fun notBefore hin => ?_⟩, hnew⟩
      · rcases List.mem_cons.mp hin with heq | hin
        · exact hnew heq.symm
        · exact hmono _ (h.refreshing hin)
      · rcases List.mem_append.mp hin with hin | hin
        · exact h.kept notBefore hin
        · cases List.mem_singleton.mp hin
    · rename_i hmissing
      have hne : key' ≠ key := by
        intro heq
        obtain ⟨handler, hget⟩ := Option.isSome_iff_exists.mp (hhandler heq).handler
        obtain ⟨entry, hget'⟩ := Option.isSome_iff_exists.mp (hhandler heq).entry
        exact hmissing handler entry hget hget'
      refine ⟨⟨fun hin => ?_, h.processing, fun notBefore hin => ?_⟩, fun heq => absurd heq hne⟩
      · rcases List.mem_cons.mp hin with heq | hin
        · exact absurd heq.symm hne
        · exact hmono _ (h.refreshing hin)
      · rcases List.mem_append.mp hin with hin | hin
        · exact h.kept notBefore hin
        · cases List.mem_singleton.mp hin
          exact hne rfl

theorem mem_eraseIdx_of_ne {α : Type} {l : List α} {a b : α} {i : Nat} (ha : a ∈ l)
    (hb : l[i]? = some b) (hne : a ≠ b) : a ∈ l.eraseIdx i := by
  obtain ⟨j, hj⟩ := List.mem_iff_getElem?.mp ha
  rw [List.mem_eraseIdx_iff_getElem?]
  refine ⟨j, fun hij => hne ?_, hj⟩
  rw [hij, hb] at hj
  exact (Option.some.inj hj).symm

/-- A spawned job runs: the refresh of another key stays where it is. -/
theorem Tracked.runSpawned (h : Tracked key s) (now i : Nat) :
    Tracked key { s with cache := s.cache.runSpawned now i } := by
  rw [CachePlugin.runSpawned]
  split
  · exact h
  · rename_i task hjob
    have hkept : ∀ notBefore, .invalidate key notBefore ∉ s.cache.spawned.eraseIdx i :=
      fun notBefore hin => h.kept notBefore (List.mem_of_mem_eraseIdx hin)
    have hspawned : task.key ≠ key → ∀ task', .enqueue task' ∈ s.cache.spawned → task'.key = key →
        .enqueue task' ∈ s.cache.spawned.eraseIdx i := by
      intro hne task' hin hkey
      refine mem_eraseIdx_of_ne hin hjob fun heq => hne ?_
      rw [← Spawned.enqueue.inj heq]
      exact hkey
    dsimp only
    split
    · rename_i q' henqueue
      obtain ⟨q, hq, haccept⟩ := Option.bind_eq_some_iff.mp henqueue
      have hq' : q' = { q with queue := q.queue ++ [task], processing := task.key :: q.processing } := by
        rw [CachePlugin.enqueue] at haccept
        split at haccept
        · cases haccept
        · split at haccept
          · exact (Option.some.inj haccept).symm
          · cases haccept
      have hqueued : task.key = key ∨ s.Queued key →
          System.Queued { s with cache := { s.cache with
            spawned := s.cache.spawned.eraseIdx i
            coordinator := some q' } } key := by
        rintro (heq | ⟨q₁, hq₁, task', hin, hkey⟩ | hrunning)
        · refine .inl ⟨q', rfl, task, ?_, heq⟩
          rw [hq']
          exact List.mem_append_right _ (List.mem_singleton_self _)
        · cases hq.symm.trans hq₁
          refine .inl ⟨q', rfl, task', ?_, hkey⟩
          rw [hq']
          exact List.mem_append_left _ hin
        · exact .inr hrunning
      refine ⟨fun hin => ?_, fun q₁ hq₁ hin => ?_, hkept⟩
      · by_cases hkey : task.key = key
        · exact .inr (hqueued (.inl hkey))
        · rcases h.refreshing hin with ⟨task', hin', hkey'⟩ | hin'
          · exact .inl ⟨task', hspawned hkey task' hin' hkey', hkey'⟩
          · exact .inr (hqueued (.inr hin'))
      · cases Option.some.inj hq₁
        rw [hq'] at hin
        rcases List.mem_cons.mp hin with heq | hin
        · exact hqueued (.inl heq.symm)
        · exact hqueued (.inr (h.processing q hq hin))
    · refine ⟨fun hin => ?_, h.processing, hkept⟩
      obtain ⟨hin, hne⟩ := List.mem_filter.mp hin
      have hkey : task.key ≠ key := fun heq => (of_decide_eq_true hne) heq.symm
      refine (h.refreshing hin).imp ?_ id
      rintro ⟨task', hin', hkey'⟩
      exact ⟨task', hspawned hkey task' hin' hkey', hkey'⟩
  · rename_i key' notBefore hjob
    split
    · exact h
    · refine ⟨fun hin => ?_, h.processing, fun notBefore' hin => ?_⟩
      · refine (h.refreshing (List.mem_filter.mp hin).1).imp ?_ id
        rintro ⟨task, hin', hkey⟩
        exact ⟨task, mem_eraseIdx_of_ne hin' hjob (by rintro ⟨⟩), hkey⟩
      · exact h.kept notBefore' (List.mem_of_mem_eraseIdx hin)

theorem Tracked.takeTask (h : Tracked key s) {task : RefreshTask} {c : CachePlugin}
    (htake : s.cache.takeTask = some (task, c)) :
    Tracked key { s with cache := c, running := task :: s.running } := by
  rw [CachePlugin.takeTask] at htake
  split at htake
  · rename_i q hq
    split at htake
    · rename_i task' rest hqueue
      cases htake
      have hqueued : s.Queued key → System.Queued { s with
          cache := { s.cache with coordinator := some { q with queue := rest } }
          running := task :: s.running } key := by
        rintro (⟨q₁, hq₁, task', hin, hkey⟩ | ⟨task', hin, hkey⟩)
        · cases hq.symm.trans hq₁
          rw [hqueue] at hin
          rcases List.mem_cons.mp hin with heq | hin
          · exact .inr ⟨task', by rw [heq]; exact List.mem_cons_self, hkey⟩
          · exact .inl ⟨_, rfl, task', hin, hkey⟩
        · exact .inr ⟨task', List.mem_cons_of_mem _ hin, hkey⟩
      refine ⟨fun hin => (h.refreshing hin).imp id hqueued, fun q₁ hq₁ hin => ?_, h.kept⟩
      cases Option.some.inj hq₁
      exact hqueued (h.processing q hq hin)
    · cases htake
  · cases htake

theorem Tracked.finishTask (h : Tracked key s) {i : Nat} {task : RefreshTask}
    (htask : s.running[i]? = some task) :
    Tracked key { s with cache := s.cache.finishTask task.key, running := s.running.eraseIdx i } := by
  have hqueued : task.key ≠ key → s.Queued key → System.Queued { s with
      cache := s.cache.finishTask task.key, running := s.running.eraseIdx i } key := by
    rintro hne (⟨q, hq, task', hin, hkey⟩ | ⟨task', hin, hkey⟩)
    · exact .inl ⟨_, Option.map_eq_some_iff.mpr ⟨q, hq, rfl⟩, task', hin, hkey⟩
    · refine .inr ⟨task', mem_eraseIdx_of_ne hin htask fun heq => hne ?_, hkey⟩
      rw [← heq]
      exact hkey
  refine ⟨fun hin => ?_, fun q hq hin => ?_, h.kept⟩
  · obtain ⟨hin, hne⟩ := List.mem_filter.mp hin
    exact (h.refreshing hin).imp id (hqueued fun heq => (of_decide_eq_true hne) heq.symm)
  · obtain ⟨q₁, hq₁, rfl⟩ := Option.map_eq_some_iff.mp hq
    obtain ⟨hin, hne⟩ := List.mem_filter.mp hin
    exact hqueued (fun heq => (of_decide_eq_true hne) heq.symm) (h.processing q₁ hq₁ hin)

theorem Tracked.shutdown (h : Tracked key s) : Tracked key s.shutdown where
  refreshing := fun hin => by
    refine (h.refreshing hin).imp id ?_
    rintro (⟨q, hq, task, hin, hkey⟩ | ⟨task, hin, hkey⟩)
    · refine .inr ⟨task, List.mem_append_right _ ?_, hkey⟩
      rw [hq]
      exact hin
    · exact .inr ⟨task, List.mem_append_left _ hin, hkey⟩
  processing := fun q hq => nomatch hq
  kept := h.kept

/-- Requests that look up the key, other than background refreshes, bring the handler along. -/
def Handled (env : Env) (key : String) (_ : System) : Event → System → Prop
  | .execute ctx, _ => CachePlugin.makeKey env ctx.request = some key → ctx.response = none →
      ctx.getBool "background_lazy_refresh" = none → HasHandler ctx
  | _, _ => True

theorem Tracked.step {e : Event} (h : Tracked key s) (hhandled : Handled env key s e s')
    (hstep : (machine env).step s e = some s') : Tracked key s' := by
  cases e with
  | elapse duration =>
    cases hstep
    exact h.of_same ⟨rfl, rfl, rfl⟩ (s.now + duration)
  | execute ctx =>
    cases hstep
    rcases execute_refreshes env s.now ctx s.cache with
      hsame | ⟨key', c₁, ctx₁, hkey, hnone, hforeground, hsame, hhandler, heq⟩
    · exact h.of_same hsame s.now
    · rw [System.execute, heq]
      have h₁ : Tracked key { s with cache := c₁ } := h.of_same hsame s.now
      exact (h₁.spawn (fun heq => hhandler (hhandled (heq ▸ hkey) hnone hforeground)) s.now).1
  | cleanup =>
    cases hstep
    have hsame : SameRefreshes s.cache (s.cache.cleanupExpired s.now) := ⟨rfl, rfl, rfl⟩
    exact h.of_same hsame s.now
  | runSpawned i =>
    cases hstep
    exact h.runSpawned s.now i
  | takeTask =>
    obtain ⟨⟨task, c⟩, htake, rfl⟩ := Option.map_eq_some_iff.mp hstep
    exact h.takeTask htake
  | finishTask i =>
    obtain ⟨task, htask, rfl⟩ := Option.map_eq_some_iff.mp hstep
    exact h.finishTask htask
  | shutdown =>
    cases hstep
    exact h.shutdown

end Background

end Lazydns
