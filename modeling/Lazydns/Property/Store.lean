import Lazydns.Plugin.CacheKey
import Lazydns.Plugin.Frame
import Lazydns.Server.Service

/-!
# What the store phase does

Once the plugins are done, every registered cache gets the response to store: whether it was asked before plays no part, only whether some cache served the response. The key is the key of the request as the plugins left it.
-/

namespace Lazydns

open Dns

def Registry.HasCache (reg : Registry) (i : Nat) : Prop :=
  ∃ name, reg.lookup name = some (.leaf (.cache i))

/-- What a cache is asked to store for a context, with the key: nothing without a response, without a question, for a response that a cache served, or for one that is not cacheable. -/
def CachePlugin.storing (env : Env) (now : Nat) (ctx : Context) (c : CachePlugin) :
    Option (String × CacheEntry) :=
  match CachePlugin.makeKey env ctx.request, c.storedEntry now ctx with
  | some key, some entry => some (key, entry)
  | _, _ => none

theorem CachePlugin.storing_eq_some {env : Env} {now : Nat} {ctx : Context} {c : CachePlugin}
    {key : String} {entry : CacheEntry} :
    c.storing env now ctx = some (key, entry) ↔
      CachePlugin.makeKey env ctx.request = some key ∧
        ctx.getBool "response_from_cache" = none ∧
        ∃ response, ctx.response = some response ∧ c.entryFor now response = some entry := by
  have hentry : c.storedEntry now ctx = some entry ↔ ctx.getBool "response_from_cache" = none ∧
      ∃ response, ctx.response = some response ∧ c.entryFor now response = some entry := by
    cases hresponse : ctx.response with
    | none => simp [CachePlugin.storedEntry, hresponse]
    | some response => simp [CachePlugin.storedEntry_eq_some hresponse]
  rw [← hentry, CachePlugin.storing]
  cases CachePlugin.makeKey env ctx.request with
  | none => simp
  | some key' => cases c.storedEntry now ctx <;> simp

namespace PluginHandler

variable {env : Env} {reg : Registry} {ctx : Context}

theorem mem_registered_iff {plugin : Plugin} :
    plugin ∈ registered reg ↔ ∃ name, reg.lookup name = some plugin := by
  refine ⟨mem_registered, fun ⟨name, h⟩ => ?_⟩
  exact List.mem_map.mpr ⟨⟨name, plugin⟩, AList.mem_lookup_iff.mp h, rfl⟩

/-! ### One cache after the other -/

/-- What storing makes of a cache: the entry is stored under the key, or nothing happens. -/
def StoreEffect (env : Env) (now : Nat) (ctx : Context) (present : Prop) (c c' : CachePlugin) : Prop :=
  (present → ∀ key entry, c.storing env now ctx = some (key, entry) → c.Stored c' key entry) ∧
    (¬ (present ∧ (c.storing env now ctx).isSome) → c' = c)

theorem executeCache_of_response (i : Nat) (w : World) (hresponse : ctx.response ≠ none) :
    Leaf.executeCache env i ctx w =
      (ctx, w.setCache i (match (w.caches i).storing env w.now ctx with
        | some (key, entry) => (w.caches i).store key entry
        | none => w.caches i)) := by
  rw [Leaf.executeCache, CachePlugin.execute_of_response env w.now _ hresponse, CachePlugin.storing]
  cases CachePlugin.makeKey env ctx.request with
  | none => rfl
  | some key => cases (w.caches i).storedEntry w.now ctx <;> rfl

theorem storing_of_stored {c c' : CachePlugin} {key : String} {entry : CacheEntry} {now : Nat}
    (h : c.Stored c' key entry) : c'.storing env now ctx = c.storing env now ctx := by
  rw [CachePlugin.storing, CachePlugin.storing, h.storedEntry now ctx]

theorem storeEffect_of_absent {now : Nat} (c : CachePlugin) : StoreEffect env now ctx False c c :=
  ⟨False.elim, fun _ => rfl⟩

theorem StoreEffect.congr {now : Nat} {present present' : Prop} {c c' : CachePlugin}
    (hiff : present ↔ present') (h : StoreEffect env now ctx present c c') :
    StoreEffect env now ctx present' c c' := by
  rwa [propext hiff] at h

theorem StoreEffect.trans {now : Nat} {present present' : Prop} {c c' c'' : CachePlugin}
    (h : StoreEffect env now ctx present c c') (h' : StoreEffect env now ctx present' c' c'') :
    StoreEffect env now ctx (present ∨ present') c c'' := by
  by_cases hfirst : present ∧ (c.storing env now ctx).isSome
  · obtain ⟨⟨key, entry⟩, hstoring⟩ := Option.isSome_iff_exists.mp hfirst.2
    have hstored := h.1 hfirst.1 key entry hstoring
    have hsame := @storing_of_stored env ctx _ _ _ _ now hstored
    refine ⟨fun _ key' entry' heq => ?_, fun hnot => absurd ⟨.inl hfirst.1, hfirst.2⟩ hnot⟩
    rw [hstoring] at heq
    cases heq
    by_cases hsecond : present'
    · exact hstored.again (h'.1 hsecond key entry (hsame.trans hstoring))
    · rw [h'.2 fun hboth => hsecond hboth.1]
      exact hstored
  · have hc := h.2 hfirst
    subst hc
    refine ⟨fun hpresent key entry heq => ?_, fun hnot => h'.2 fun hboth => hnot ⟨.inr hboth.1, hboth.2⟩⟩
    refine h'.1 (hpresent.resolve_left fun hp => hfirst ⟨hp, ?_⟩) key entry heq
    rw [heq]
    rfl

theorem storeOne_run (plugin : Plugin) (w : World) (hresponse : ctx.response ≠ none) :
    ∃ w', (storeOne env plugin ctx).run w = ((.ok (), ctx), w') ∧ w'.now = w.now ∧
      ∀ i, StoreEffect env w.now ctx (plugin = .leaf (.cache i)) (w.caches i) (w'.caches i) := by
  have hother : (∀ i, plugin ≠ .leaf (.cache i)) → ∀ i,
      StoreEffect env w.now ctx (plugin = .leaf (.cache i)) (w.caches i) (w.caches i) := fun hne i =>
    (storeEffect_of_absent _).congr (iff_of_false id (hne i))
  unfold storeOne
  split
  · rename_i i
    refine ⟨(Leaf.executeCache env i ctx w).2, ?_, ?_, ?_⟩
    · rw [Run.run_step, executeCache_of_response i w hresponse]
    · rfl
    · intro j
      rw [executeCache_of_response i w hresponse]
      rw [World.setCache_caches]
      by_cases hj : j = i
      · subst hj
        rw [Function.update_self]
        refine ⟨fun _ key entry heq => ?_, fun hnot => ?_⟩
        · rw [heq]
          exact CachePlugin.store_stored _ _ _
        · cases hstoring : (w.caches j).storing env w.now ctx with
          | none => rfl
          | some stored => exact absurd ⟨rfl, by rw [hstoring]; rfl⟩ hnot
      · rw [Function.update_of_ne hj]
        refine (storeEffect_of_absent _).congr (iff_of_false id fun heq => hj ?_)
        cases heq
        rfl
  · rename_i hne
    exact ⟨w, rfl, rfl, hother hne⟩

/-- The store loop run to its end: each cache among the plugins is asked to store, the others keep what they have. -/
theorem storePhase_run (plugins : List Plugin) (w : World) (hresponse : ctx.response ≠ none) :
    ∃ w', (storePhase env plugins ctx).run w = ((.ok (), ctx), w') ∧ w'.now = w.now ∧
      ∀ i, StoreEffect env w.now ctx (Plugin.leaf (.cache i) ∈ plugins) (w.caches i) (w'.caches i) := by
  induction plugins generalizing w with
  | nil => exact ⟨w, rfl, rfl, fun i => (storeEffect_of_absent _).congr (by simp)⟩
  | cons plugin rest ih =>
    obtain ⟨w₁, hone, hnow, heffect⟩ := @storeOne_run env ctx plugin w hresponse
    obtain ⟨w₂, hrest, hnow', heffect'⟩ := ih w₁
    refine ⟨w₂, ?_, hnow'.trans hnow, fun i => ?_⟩
    · rw [storePhase, Run.run_andThen_of_ok hone]
      exact hrest
    · rw [hnow] at heffect'
      refine ((heffect i).trans (heffect' i)).congr ?_
      rw [List.mem_cons, eq_comm]

theorem reversePhase_run (plugins : List Plugin) (ctx : Context) (w : World) :
    ∃ w', (reversePhase plugins ctx).run w = ((.ok (), ctx), w') ∧ w'.now = w.now ∧
      w'.caches = w.caches := by
  induction plugins generalizing w with
  | nil => exact ⟨w, rfl, rfl, rfl⟩
  | cons plugin rest ih =>
    have hone : ∃ w', (saveOne plugin ctx).run w = ((.ok (), ctx), w') ∧ w'.now = w.now ∧
        w'.caches = w.caches := by
      unfold saveOne
      split
      · exact ⟨_, rfl, rfl, rfl⟩
      · exact ⟨w, rfl, rfl, rfl⟩
    obtain ⟨w₁, hone, hnow, hcaches⟩ := hone
    obtain ⟨w₂, hrest, hnow', hcaches'⟩ := ih w₁
    refine ⟨w₂, ?_, hnow'.trans hnow, hcaches'.trans hcaches⟩
    rw [reversePhase, Run.run_andThen_of_ok hone]
    exact hrest

/-- The post-processing never fails, keeps the context, and asks the registered caches to store. -/
theorem postProcess_run (ctx : Context) (w : World) :
    ∃ w', (postProcess env reg ctx).run w = ((.ok (), ctx), w') ∧ w'.now = w.now ∧
      ∀ i, StoreEffect env w.now ctx (reg.HasCache i) (w.caches i) (w'.caches i) := by
  rw [postProcess]
  split
  · rename_i hhas
    have hresponse : ctx.response ≠ none := Option.isSome_iff_ne_none.mp hhas
    obtain ⟨w₁, hstore, hnow, heffect⟩ := @storePhase_run env ctx (registered reg) w hresponse
    obtain ⟨w₂, hreverse, hnow', hcaches⟩ := reversePhase_run (registered reg) ctx w₁
    refine ⟨w₂, ?_, hnow'.trans hnow, fun i => ?_⟩
    · rw [Run.run_andThen_of_ok hstore]
      exact hreverse
    · rw [hcaches]
      exact (heffect i).congr mem_registered_iff
  · rename_i hhas
    refine ⟨w, rfl, rfl, fun i => ⟨fun _ key entry heq => ?_, fun _ => rfl⟩⟩
    obtain ⟨-, -, response, hresponse, -⟩ := CachePlugin.storing_eq_some.mp heq
    exact absurd (by rw [Context.hasResponse, hresponse]; rfl) hhas

/-! ### Stored whether or not it was asked before -/

/-- When a cache has something to store: it is registered, no cache served the response, the request has a key, and the response is cacheable. -/
structure Storable (env : Env) (reg : Registry) (now : Nat) (ctx : Context) (i : Nat) (c : CachePlugin)
    (key : String) (entry : CacheEntry) : Prop where
  registered : reg.HasCache i
  unmarked : ctx.getBool "response_from_cache" = none
  key : CachePlugin.makeKey env ctx.request = some key
  cacheable : ∃ response, ctx.response = some response ∧ c.entryFor now response = some entry

theorem storable_iff {now : Nat} {i : Nat} {c : CachePlugin} {key : String} {entry : CacheEntry} :
    Storable env reg now ctx i c key entry ↔
      reg.HasCache i ∧ c.storing env now ctx = some (key, entry) := by
  rw [CachePlugin.storing_eq_some]
  exact ⟨fun h => ⟨h.registered, h.key, h.unmarked, h.cacheable⟩,
    fun ⟨hreg, hkey, hmark, hresponse⟩ => ⟨hreg, hmark, hkey, hresponse⟩⟩

/-- Once the plugins are done, a cache changes exactly if it has something to store, and then it stores that one entry. No plugin of the pipeline need have asked it before. The same holds of each step when other requests run in between. -/
theorem store_phase_changes (env : Env) (reg : Registry) :
    (∀ (fuel : Nat) (entry : String) (req : RequestContext) (w w₁ : World) (ctx : Context),
      (runEntry env reg fuel entry (initialContext w.now entry req)).run w = ((.ok (), ctx), w₁) →
      ∃ w₂, (process env reg fuel entry req).run w = ((.ok (), ctx), w₂) ∧ ∀ i,
        (∀ key stored, Storable env reg w₁.now ctx i (w₁.caches i) key stored →
          (w₁.caches i).Stored (w₂.caches i) key stored) ∧
        ((¬ ∃ key stored, Storable env reg w₁.now ctx i (w₁.caches i) key stored) →
          w₂.caches i = w₁.caches i)) ∧
    ∀ ctx : Context, (postProcess env reg ctx).Within (fun _ => True)
      (fun w w' => ∀ i, w'.caches i = w.caches i ∨ ∃ key stored,
        Storable env reg w.now ctx i (w.caches i) key stored ∧
          (w.caches i).Stored (w'.caches i) key stored)
      (fun ctx' => ctx' = ctx) (fun _ => False) := by
  refine ⟨?_, ?_⟩
  · intro fuel entry req w w₁ ctx hpipeline
    obtain ⟨w₂, hpost, -, heffect⟩ := @postProcess_run env reg ctx w₁
    refine ⟨w₂, ?_, fun i => ⟨fun key stored h => ?_, fun hnot => ?_⟩⟩
    · rw [process_run, Run.run_andThen_of_ok hpipeline]
      exact hpost
    · obtain ⟨hreg, hstoring⟩ := storable_iff.mp h
      exact (heffect i).1 hreg key stored hstoring
    · refine (heffect i).2 fun ⟨hreg, hsome⟩ => hnot ?_
      obtain ⟨⟨key, stored⟩, hstoring⟩ := Option.isSome_iff_exists.mp hsome
      exact ⟨key, stored, storable_iff.mpr ⟨hreg, hstoring⟩⟩
  · intro ctx
    rw [postProcess]
    split
    · rename_i hhas
      have hresponse : ctx.response ≠ none := Option.isSome_iff_ne_none.mp hhas
      refine Run.within_andThen (P := fun ctx' => ctx' = ctx) (storePhase_sequential Run.within_sequential ?_ ctx rfl) ?_
      · intro i hi ctx' hctx'
        subst hctx'
        refine Run.within_step fun w _ => ?_
        rw [executeCache_of_response i w hresponse]
        refine ⟨fun j => ?_, rfl⟩
        rw [World.setCache_caches]
        by_cases hj : j = i
        · subst hj
          rw [Function.update_self]
          cases hstoring : (w.caches j).storing env w.now ctx' with
          | none => exact .inl rfl
          | some stored =>
            exact .inr ⟨stored.1, stored.2, storable_iff.mpr ⟨mem_registered_iff.mp hi, hstoring⟩,
              CachePlugin.store_stored _ _ _⟩
        · rw [Function.update_of_ne hj]
          exact .inl rfl
      · intro ctx' hctx'
        exact reversePhase_sequential Run.within_sequential
          (fun _ _ hctx => Run.within_step fun _ _ => ⟨fun _ => .inl rfl, hctx⟩) _ ctx' hctx'
    · exact Run.within_done rfl

end PluginHandler

def Registry.bypassedCache : Registry :=
  .ofList [("cache", .leaf (.cache 0)),
    ("main", .sequence none [.exec (.leaf (.plain (.blackhole ⟨[0], []⟩)))])]

/-- The black hole answers, and is all that runs; the cache, which never saw a lookup, has the answer afterwards, and serves it to the next client that asks it. -/
theorem bypassed_cache_stores :
    let first := (PluginHandler.process (.answering (.ok Message.new)) .bypassedCache 4 "main"
      (.new (.ask 1 "a." .A) .udp)).run World.fresh
    let second := (PluginHandler.process (.answering (.ok Message.new)) .bypassedCache 4 "cache"
      (.new (.ask 2 "a." .A) .udp)).run first.2
    first.1.2.trace = [.step none 0] ∧ first.1.2.hasMetadata "cache_checked" = false ∧
      (World.fresh.caches 0).cache.peek "a.:1:1:0" = none ∧
      ((first.2.caches 0).cache.peek "a.:1:1:0").map CacheEntry.response = first.1.2.response ∧
      first.1.2.response ≠ none ∧
      second.1.2.getBool "response_from_cache" = some true ∧
      second.1.2.response.map Message.answers = first.1.2.response.map Message.answers := by
  decide +kernel

/-! ### The key of the lookup and the key of the store -/

namespace PluginHandler

variable {env : Env} {reg : Registry}

/-- A response is stored under the key of the lookup exactly if the cache is registered, no cache served the response, and the request still has that key when the plugins are done, as it does unless a redirection renamed its question. Then every later lookup under that key is a hit with this response while the entry is there and alive, no lookup under another key sees it, and only requests for the same question with the same AD, CD and DO bits look under that key. -/
theorem stored_under_lookup_key_iff {fuel : Nat} {entry : String} {req : RequestContext} {w w₁ : World}
    {ctx : Context} {i : Nat} {key : String} {response : Message} {stored : CacheEntry}
    (hpipeline : (runEntry env reg fuel entry (initialContext w.now entry req)).run w =
      ((.ok (), ctx), w₁))
    (hkey : CachePlugin.makeKey env req.message = some key) (hresponse : ctx.response = some response)
    (hcacheable : (w₁.caches i).entryFor w₁.now response = some stored)
    (hnew : (w₁.caches i).cache.peek key ≠ some stored) :
    ∃ w₂, (process env reg fuel entry req).run w = ((.ok (), ctx), w₂) ∧
      ((w₂.caches i).cache.peek key = some stored ↔
        reg.HasCache i ∧ ctx.getBool "response_from_cache" = none ∧
          CachePlugin.makeKey env ctx.request = some key) ∧
      (.renamed ∉ ctx.trace → CachePlugin.makeKey env ctx.request = some key) ∧
      (CachePlugin.makeKey env ctx.request = some key →
        (∀ (later : World) (asked : Context), (later.caches i).cache.peek key = some stored →
          CachePlugin.makeKey env asked.request = some key → asked.response = none →
          asked.getBool "response_from_cache" = none → asked.getBool "background_lazy_refresh" = none →
          later.now - w₁.now < 1000 * min stored.ttl stored.cacheTtl →
          ∃ ttl, 0 < ttl ∧ (Leaf.executeCache env i asked later).1.response =
            some { CachePlugin.updateTtls response ttl with
              id := asked.request.id
              questions := asked.request.questions }) ∧
        (∀ key', key' ≠ key → (w₂.caches i).cache.peek key' = (w₁.caches i).cache.peek key' ∨
          (w₂.caches i).cache.peek key' = none) ∧
        ∀ m, CachePlugin.makeKey env m = some key → CachePlugin.SameKeyFields env req.message m) := by
  obtain ⟨w₂, hpost, -, heffect⟩ := @postProcess_run env reg ctx w₁
  have hstoring : ∀ key', (w₁.caches i).storing env w₁.now ctx = some (key', stored) ↔
      CachePlugin.makeKey env ctx.request = some key' ∧ ctx.getBool "response_from_cache" = none := by
    intro key'
    rw [CachePlugin.storing_eq_some, hresponse]
    simp [hcacheable]
  refine ⟨w₂, ?_, ⟨fun hpeek => ?_, fun ⟨hreg, hmark, hlast⟩ => ?_⟩, fun htrace => ?_, fun hlast => ⟨?_, ?_, ?_⟩⟩
  · rw [process_run, Run.run_andThen_of_ok hpipeline]
    exact hpost
  · -- the entry was not there before, so it is this store that put it there
    by_contra hnot
    by_cases hpresent : reg.HasCache i ∧ ((w₁.caches i).storing env w₁.now ctx).isSome
    · obtain ⟨⟨key', stored'⟩, hstore⟩ := Option.isSome_iff_exists.mp hpresent.2
      have hstored := (heffect i).1 hpresent.1 key' stored' hstore
      obtain ⟨hlast, hmark, -⟩ := CachePlugin.storing_eq_some.mp hstore
      have hne : key ≠ key' := fun heq => hnot ⟨hpresent.1, hmark, heq ▸ hlast⟩
      rcases hstored.other key hne with heq | hnone
      · exact hnew (heq.symm.trans hpeek)
      · rw [hnone] at hpeek
        cases hpeek
    · rw [(heffect i).2 hpresent] at hpeek
      exact hnew hpeek
  · exact ((heffect i).1 hreg key stored ((hstoring key).mpr ⟨hlast, hmark⟩)).self
  · rcases (runEntry_from hpipeline).request with heq | hrenamed
    · rw [heq]
      exact hkey
    · exact absurd hrenamed htrace
  · intro later asked hpeek hasked hnone hmark hbackground hlive
    obtain ⟨hstored, hat, -⟩ := CachePlugin.entryFor_eq_some hcacheable
    obtain ⟨hpositive, hserved⟩ := CachePlugin.tryServeFromCache_hit hpeek hbackground (hat ▸ hlive)
    refine ⟨_, hpositive, ?_⟩
    rw [Leaf.executeCache, CachePlugin.execute, hasked, hnone, hmark]
    simp only [Option.isSome_none, Bool.false_eq_true, if_false, Option.isNone_none, if_true]
    rw [hserved, ← hstored]
    rfl
  · intro key' hne
    by_cases hpresent : reg.HasCache i ∧ ((w₁.caches i).storing env w₁.now ctx).isSome
    · obtain ⟨⟨key'', stored'⟩, hstore⟩ := Option.isSome_iff_exists.mp hpresent.2
      obtain ⟨hlast', -, -⟩ := CachePlugin.storing_eq_some.mp hstore
      rw [hlast] at hlast'
      cases hlast'
      exact ((heffect i).1 hpresent.1 _ _ hstore).other key' hne
    · rw [(heffect i).2 hpresent]
      exact .inl rfl
  · exact fun m hm => CachePlugin.sameKeyFields_of_makeKey hkey hm

/-- In the sequence without a lookup nothing renames the question, so the answer is found under its key. -/
theorem bypassed_cache_stored_under_key :
    ∃ (w : World) (stored : CacheEntry), (w.caches 0).cache.peek "a.:1:1:0" = some stored ∧
      stored.ttl = 300 := by
  let env := Env.answering (.ok Message.new)
  let req := RequestContext.new (.ask 1 "a." .A) .udp
  let r := (runEntry env .bypassedCache 4 "main" (initialContext 0 "main" req)).run World.fresh
  let response := r.1.2.response.getD Message.new
  have hentry : ((r.2.caches 0).entryFor r.2.now response).isSome ∧
      ((r.2.caches 0).entryFor r.2.now response).map CacheEntry.ttl = some 300 := by decide +kernel
  obtain ⟨stored, hstored⟩ := Option.isSome_iff_exists.mp hentry.1
  have hpipeline : r = ((.ok (), r.1.2), r.2) := Prod.ext (Prod.ext (by decide +kernel) rfl) rfl
  have hnone : (r.2.caches 0).cache.peek "a.:1:1:0" = none := by decide +kernel
  obtain ⟨w, -, hiff, -⟩ := @stored_under_lookup_key_iff env .bypassedCache 4 "main" req World.fresh r.2
    r.1.2 0 "a.:1:1:0" response stored hpipeline (by decide +kernel) (by decide +kernel) hstored
    (by rw [hnone]; exact Option.some_ne_none stored ∘ Eq.symm)
  refine ⟨w, stored, hiff.mpr ⟨⟨"cache", ?_⟩, by decide +kernel, by decide +kernel⟩, ?_⟩
  · exact AList.lookup_insert _
  · rw [hstored] at hentry
    exact Option.some.inj hentry.2

end PluginHandler

def Registry.cachedRedirect : Registry :=
  .ofList [("cache", .leaf (.cache 0)),
    ("main", .sequence none [.exec (.leaf (.cache 0)),
      .exec (.leaf (.plain (.redirect ⟨[⟨"a.", "b."⟩]⟩))),
      .exec (.leaf (.plain (.blackhole ⟨[0], []⟩)))])]

/-- The question `a.` is redirected to `b.` after the lookup, and its answer is stored under the key of `b.`: the same request misses again. -/
theorem redirected_response_misses_again :
    let first := (PluginHandler.process (.answering (.ok Message.new)) .cachedRedirect 4 "main"
      (.new (.ask 1 "a." .A) .udp)).run World.fresh
    let second := (PluginHandler.process (.answering (.ok Message.new)) .cachedRedirect 4 "main"
      (.new (.ask 2 "a." .A) .udp)).run first.2
    CachePlugin.makeKey (.answering (.ok Message.new)) (.ask 1 "a." .A) = some "a.:1:1:0" ∧
      first.1.2.response ≠ none ∧
      (first.2.caches 0).cache.peek "a.:1:1:0" = none ∧
      ((first.2.caches 0).cache.peek "b.:1:1:0").map CacheEntry.response = first.1.2.response ∧
      (second.2.caches 0).stats.hits = 0 ∧ (second.2.caches 0).stats.misses = 2 := by
  decide +kernel

end Lazydns
