import Lazydns.Plugin.Accesses
import Lazydns.Server.Service

/-!
# Whether a stored entry stays until its TTL is over

A removal goes by the key: a lookup that has found its clone expired, and a fallback that wakes up, remove whatever is under the key by then. So an entry is safe from them if no store comes in between, and it is safe from the clean-up, which judges and removes under one lock, if its time in the cache covers its TTL.
-/

namespace Lazydns

open Dns

namespace Accesses

/-! ### What a run must meet -/

/-- The entry's TTL is over. -/
def Over (now : Nat) (entry : CacheEntry) : Prop := entry.cachedAt + 1000 * entry.ttl ≤ now

/-- What a removal finds under the key is the entry that the lookup found, or one whose TTL is over: no store has come in between. -/
def Undisturbed (key : String) (s : System) : Event → System → Prop
  | .job t, _ => ∀ job entry e, s.jobs t = some job → Removing key entry job →
      s.plugin.cache.peek key = some e → e = entry ∨ Over s.now e
  | _, _ => True

/-- No lookup without the handler starts a refresh for the entry while its TTL lasts. -/
def LazyHandled (key : String) (entry : CacheEntry) (s : System) : Event → System → Prop
  | .job t, _ => s.jobs t = some (.live key entry false) → entry.remainingTtl s.now ≠ 0 →
      key ∉ s.plugin.refreshingKeys →
      (s.plugin.enableLazycache && s.plugin.belowThreshold (entry.remainingTtl s.now) entry.originalTtl) = false
  | _, _ => True

/-- A store neither replaces nor evicts the entry under the key. -/
def Kept (key : String) (s : System) : Event → System → Prop
  | .job t, s' => ∀ key' entry, s.jobs t = some (.storing key' entry) →
      s'.plugin.cache.peek key = s.plugin.cache.peek key
  | _, _ => True

/-! ### Jobs and the time -/

variable {s s' : System} {e : Event} {key : String} {entry : CacheEntry}

theorem Over.mono {now now' : Nat} (h : Over now entry) (hnow : now ≤ now') : Over now' entry :=
  Nat.le_trans h hnow

theorem over_of_remainingTtl (hpos : 0 < entry.ttl) (hremaining : entry.remainingTtl s.now = 0) :
    Over s.now entry := by
  have hmod := Nat.mod_le ((s.now - entry.cachedAt) / 1000) (U32_MAX + 1)
  rw [CacheEntry.remainingTtl] at hremaining
  rw [Over]
  omega

/-- An entry whose time in the cache covers its TTL expires there only when the TTL is over. -/
theorem over_of_isCacheExpired (hpos : 0 < entry.ttl) (hcovers : entry.ttl ≤ entry.cacheTtl)
    (hexpired : entry.isCacheExpired s.now = true) : Over s.now entry := by
  rw [CacheEntry.isCacheExpired, Bool.or_eq_true, beq_iff_eq, decide_eq_true_iff] at hexpired
  rw [Over]
  omega

theorem over_of_condemned {t : Nat} {job : Job} (hpos : 0 < entry.ttl) (hcovers : entry.ttl ≤ entry.cacheTtl)
    (hjob : s.jobs t = some job) (hlazy : LazyHandled key entry s (.job t) s')
    (hcondemned : Condemned s key entry job) : Over s.now entry := by
  rcases hcondemned with ⟨-, hexpired⟩ | ⟨-, hzero⟩ | ⟨rfl, hnew, hbelow⟩
  · exact over_of_isCacheExpired hpos hcovers hexpired
  · exact over_of_remainingTtl hpos hzero
  · by_cases hzero : entry.remainingTtl s.now = 0
    · exact over_of_remainingTtl hpos hzero
    · have hnot := hlazy hjob hzero hnew
      rw [hbelow] at hnot
      cases hnot

theorem run_now {es : List Event} (hrun : machine.run s es = some s') : s.now ≤ s'.now := by
  refine Machine.run_invariant (I := fun x => s.now ≤ x.now) ?_ (Nat.le_refl s.now) hrun
  exact fun x e x' hx hstep => Nat.le_trans hx (step_jobs hstep).1

/-- No job is going to remove this entry from under the key before its TTL is over. -/
def Spared (key : String) (entry : CacheEntry) (s : System) : Prop :=
  ∀ t job, s.jobs t = some job → Removing key entry job → Over s.now entry

theorem Spared.step (h : Spared key entry s) (hpos : 0 < entry.ttl) (hcovers : entry.ttl ≤ entry.cacheTtl)
    (hlazy : LazyHandled key entry s e s') (hstep : machine.step s e = some s') : Spared key entry s' := by
  obtain ⟨hnow, -, hjobs⟩ := step_jobs hstep
  intro t job' hjob' hremoving
  rcases hjobs t job' hjob' with hjob | ⟨k, x, handled, rfl⟩ | ⟨k, response, x, -, rfl⟩ |
    ⟨rfl, job, hjob, -, hcondemned⟩
  · exact (h t job' hjob hremoving).mono hnow
  · exact hremoving.elim
  · exact hremoving.elim
  · exact (over_of_condemned hpos hcovers hjob hlazy (hcondemned key entry hremoving)).mono hnow

/-- An entry on its way to the table is as old as its store says, and made for the configuration. -/
structure Dated (cacheTtl : Option Nat) (s : System) : Prop where
  config : s.plugin.cacheTtl = cacheTtl
  stored : ∀ t key entry, s.jobs t = some (.storing key entry) →
    entry.cachedAt ≤ s.now ∧ entry.cacheTtl = cacheTtl.getD entry.ttl

theorem Dated.step {cacheTtl : Option Nat} (h : Dated cacheTtl s) (hstep : machine.step s e = some s') :
    Dated cacheTtl s' := by
  obtain ⟨hnow, hcacheTtl, hjobs⟩ := step_jobs hstep
  refine ⟨hcacheTtl.trans h.config, fun t k x hjob' => ?_⟩
  rcases hjobs t _ hjob' with hjob | ⟨_, _, _, hfound⟩ | ⟨k', response, x', hentry, hstoring⟩ |
    ⟨-, job, -, hpushes, -⟩
  · exact (h.stored t k x hjob).imp (fun hcached => hcached.trans hnow) id
  · cases hfound
  · cases hstoring
    obtain ⟨-, hcached, hmade⟩ := CachePlugin.entryFor_eq_some hentry
    rw [h.config] at hmade
    exact ⟨hcached.le.trans hnow, hmade⟩
  · exact (hpushes k x rfl).elim

/-! ### The entry in the table -/

theorem peek_cleanup {cache : ShardedLruCache} {i : Nat} {keep : CacheEntry → Bool}
    (hpeek : cache.peek key = some entry) (hkeep : keep entry = true) :
    (cache.setShard i ((cache.shard i).retain keep)).peek key = some entry := by
  rw [ShardedLruCache.peek] at hpeek ⊢
  change (Function.update cache.shard i _ (cache.shardFor key)).peek key = _
  by_cases hi : cache.shardFor key = i
  · rw [hi] at hpeek ⊢
    rw [Function.update_self, Lru.peek_retain, hpeek, Option.filter_some, hkeep, if_pos rfl]
  · rw [Function.update_of_ne hi, hpeek]

/-- The entry is in the table until its TTL is over. -/
def Held (key : String) (entry : CacheEntry) (s : System) : Prop :=
  Over s.now entry ∨ s.plugin.cache.peek key = some entry

theorem Held.step (h : Held key entry s) (hspared : Spared key entry s) (hpos : 0 < entry.ttl)
    (hcovers : entry.ttl ≤ entry.cacheTtl) (hundisturbed : Undisturbed key s e s') (hkept : Kept key s e s')
    (hstep : machine.step s e = some s') : Held key entry s' := by
  have hlater := (step_jobs hstep).1
  refine h.elim (fun hover => .inl (hover.mono hlater)) fun hpeek => ?_
  cases e with
  | elapse duration =>
    cases hstep
    exact .inr hpeek
  | lookup t key' handled =>
    simp only [machine, Accesses.step] at hstep
    split at hstep
    · cases hstep
    · cases Option.some.inj hstep
      exact .inr ((ShardedLruCache.peek_get _ _ _).trans hpeek)
  | store t key' response =>
    simp only [machine, Accesses.step] at hstep
    split at hstep
    · cases hstep
    · obtain ⟨x, -, rfl⟩ := Option.map_eq_some_iff.mp hstep
      exact .inr hpeek
  | job t =>
    obtain ⟨job, job', hjob, -, hwhat⟩ := job_cases hstep
    rcases hwhat with ⟨key', x, hremoving, hcache, -⟩ | ⟨key', x, rfl, -, -⟩ | ⟨hcache, -⟩
    · by_cases hkey : key = key'
      · subst hkey
        rcases hundisturbed job x entry hjob hremoving hpeek with rfl | hover
        · exact .inl ((hspared t job hjob hremoving).mono hlater)
        · exact .inl (hover.mono hlater)
      · rw [Held, hcache]
        exact .inr ((ShardedLruCache.peek_pop_of_ne _ _ hkey).trans hpeek)
    · exact .inr ((hkept key' x hjob).trans hpeek)
    · rw [Held, hcache]
      exact .inr hpeek
  | cleanup i =>
    cases hstep
    by_cases hexpired : entry.isCacheExpired s.now = true
    · exact .inl (over_of_isCacheExpired hpos hcovers hexpired)
    · exact .inr (peek_cleanup hpeek (Bool.not_eq_true' _ ▸ Bool.eq_false_iff.mpr hexpired))
  | complete key' =>
    cases hstep
    exact .inr hpeek

/-- While no store comes between a lookup and the removal it asks for, and no lookup without the handler starts a refresh for a lasting entry, an entry that is neither replaced nor evicted stays until its TTL is over, if its time in the cache covers that. -/
theorem stored_entry_stays {now₀ : Nat} {plugin : CachePlugin} {before after : List Event} {t : Nat}
    {s₁ s₂ : System} (hbefore : machine.run (.idle now₀ plugin) before = some s)
    (hjob : s.jobs t = some (.storing key entry)) (hstore : machine.step s (.job t) = some s₁)
    (hafter : machine.run s₁ after = some s₂)
    (hcovers : ∀ cacheTtl, plugin.cacheTtl = some cacheTtl → entry.ttl ≤ cacheTtl)
    (hlazy : machine.Each (LazyHandled key entry) (.idle now₀ plugin) (before ++ .job t :: after))
    (hundisturbed : machine.Each (Undisturbed key) s₁ after) (hkept : machine.Each (Kept key) s₁ after)
    (hlasts : s₂.now < entry.cachedAt + 1000 * entry.ttl) :
    s₂.plugin.cache.peek key = some entry := by
  have hidle : Dated plugin.cacheTtl (.idle now₀ plugin) := ⟨rfl, fun _ _ _ h => nomatch h⟩
  have hdated : Dated plugin.cacheTtl s :=
    Machine.run_invariant (fun _ _ _ h hstep => h.step hstep) hidle hbefore
  obtain ⟨hcached, hmade⟩ := hdated.stored t key entry hjob
  have hcovers' : entry.ttl ≤ entry.cacheTtl := by
    rw [hmade]
    cases hcacheTtl : plugin.cacheTtl with
    | none => exact le_rfl
    | some L => exact hcovers L hcacheTtl
  have hlater : s.now ≤ s₂.now := (step_jobs hstore).1.trans (run_now hafter)
  have hpos : 0 < entry.ttl := by omega
  obtain ⟨hlazyBefore, hlazyRest⟩ := (Machine.each_append_of_run hbefore).mp hlazy
  obtain ⟨hlazyStore, hlazyAfter⟩ := (Machine.each_cons_of_step hstore).mp hlazyRest
  have hnone : Spared key entry (.idle now₀ plugin) := fun _ _ h => nomatch h
  have hspared : Spared key entry s :=
    Machine.run_keeps (fun _ _ _ h hl hstep => h.step hpos hcovers' hl hstep) hnone hlazyBefore hbefore
  have hheld : Held key entry s₁ := by
    rw [step_job hjob] at hstore
    cases Option.some.inj hstore
    exact .inr (ShardedLruCache.peek_push_self _ _ _)
  have hsafe : Spared key entry s₂ ∧ Held key entry s₂ := by
    refine Machine.run_keeps (I := fun x => Spared key entry x ∧ Held key entry x) ?_ ⟨hspared.step hpos hcovers' hlazyStore hstore, hheld⟩
      ((hlazyAfter.and hundisturbed).and hkept) hafter
    intro x e x' hx hc hstep
    exact ⟨hx.1.step hpos hcovers' hc.1.1 hstep, hx.2.step hx.1 hpos hcovers' hc.1.2 hc.2 hstep⟩
  exact hsafe.2.resolve_left (Nat.not_le.mpr hlasts)

/-! ### Two stores on one key -/

def reply (ttl : Nat) : Message :=
  { Message.ask 7 "a." .A with qr := true, answers := [⟨"a.", .A, .IN, ttl, .A 0⟩] }

/-- The entry that a cache without `cache_ttl` makes of the reply. -/
def entryOf (now ttl : Nat) : CacheEntry := .new now (reply ttl) ttl ttl

/-- A reply for one second is stored, and looked up when the second is over. Before the lookup removes what is under the key, a reply for 300 seconds is on its way there. -/
def expiredThenStored : List Event :=
  [.store 0 "a.:1:1:0" (reply 1), .job 0, .elapse 1000, .lookup 1 "a.:1:1:0" true, .job 1,
    .store 2 "a.:1:1:0" (reply 300)]

theorem run_expiredThenStored : ∃ s, machine.run (.idle 0 (CachePlugin.new 16)) expiredThenStored = some s ∧
    s.now = 1000 ∧ s.jobs 1 = some (.popping "a.:1:1:0" (entryOf 0 1)) ∧
    s.jobs 2 = some (.storing "a.:1:1:0" (entryOf 1000 300)) := by
  have hrun : (machine.run (.idle 0 (CachePlugin.new 16)) expiredThenStored).map
      (fun s => (s.now, s.jobs 1, s.jobs 2)) =
        some (1000, some (.popping "a.:1:1:0" (entryOf 0 1)),
          some (.storing "a.:1:1:0" (entryOf 1000 300))) := by decide +kernel
  obtain ⟨s, hs, heq⟩ := Option.map_eq_some_iff.mp hrun
  simp only [Prod.mk.injEq] at heq
  exact ⟨s, hs, heq⟩

/-- The lookup then removes the entry that has just been stored. -/
theorem fresh_entry_removed : ∃ s s₁ s₂,
    machine.run (.idle 0 (CachePlugin.new 16)) expiredThenStored = some s ∧
    s.jobs 2 = some (.storing "a.:1:1:0" (entryOf 1000 300)) ∧
    machine.step s (.job 2) = some s₁ ∧ machine.run s₁ [.job 1] = some s₂ ∧
    machine.Each (Kept "a.:1:1:0") s₁ [.job 1] ∧
    s₂.now < (entryOf 1000 300).cachedAt + 1000 * (entryOf 1000 300).ttl ∧
    s₂.plugin.cache.peek "a.:1:1:0" = none := by
  obtain ⟨s, hrun, hnow, hpopping, hstoring⟩ := run_expiredThenStored
  have hpopping' : ((s.setCache (s.plugin.cache.push "a.:1:1:0" (entryOf 1000 300)).2).setJob 2 none).jobs 1 =
      some (.popping "a.:1:1:0" (entryOf 0 1)) := hpopping
  refine ⟨s, _, _, hrun, hstoring, step_job hstoring,
    Machine.run_cons_of_step (step_job hpopping') [], ?_, ?_, ShardedLruCache.peek_pop_self _ _⟩
  · intro s₂ _
    refine ⟨fun key' entry hjob => ?_, trivial⟩
    cases hpopping'.symm.trans hjob
  · change s.now < _
    rw [hnow]
    decide

def storing : System :=
  (System.idle 0 (CachePlugin.new 16)).setJob 0 (some (.storing "a.:1:1:0" (entryOf 0 300)))

/-- The table is cleaned up 200 seconds after the store. -/
theorem stored_entry_stays_reply : ∃ s₁ s₂, machine.step storing (.job 0) = some s₁ ∧
    machine.run s₁ [.elapse 200000, .cleanup 0] = some s₂ ∧
    s₂.plugin.cache.peek "a.:1:1:0" = some (entryOf 0 300) := by
  have hstore : machine.step (.idle 0 (CachePlugin.new 16)) (.store 0 "a.:1:1:0" (reply 300)) = some storing := rfl
  have hjob : storing.jobs 0 = some (.storing "a.:1:1:0" (entryOf 0 300)) := rfl
  have hpush := step_job hjob
  obtain ⟨s₁, hs₁⟩ : ∃ s₁, storing.jobStep 0 (.storing "a.:1:1:0" (entryOf 0 300)) = some s₁ := ⟨_, rfl⟩
  rw [hs₁] at hpush
  have hnow : s₁.now = 0 := by
    cases Option.some.inj hs₁
    rfl
  obtain ⟨s₂, hafter, hlater⟩ : ∃ s₂, machine.run s₁ [.elapse 200000, .cleanup 0] = some s₂ ∧
      s₂.now = s₁.now + 200000 := ⟨_, rfl, rfl⟩
  refine ⟨s₁, s₂, hpush, hafter,
    stored_entry_stays (Machine.run_cons_of_step hstore []) hjob hpush hafter ?_ ?_ ?_ ?_ ?_⟩
  · exact fun _ h => nomatch h
  · refine (Machine.each_cons_of_step hstore).mpr ⟨trivial, (Machine.each_cons_of_step hpush).mpr ⟨?_, ?_⟩⟩
    · exact fun hlive => nomatch hlive
    · exact fun _ _ => ⟨trivial, fun _ _ => ⟨trivial, trivial⟩⟩
  · exact fun _ _ => ⟨trivial, fun _ _ => ⟨trivial, trivial⟩⟩
  · exact fun _ _ => ⟨trivial, fun _ _ => ⟨trivial, trivial⟩⟩
  · rw [hlater, hnow]
    decide

end Accesses

end Lazydns
