import Lazydns.Plugin.Frame
import Lazydns.Server.Service

/-!
# Invariants of the server, from what its plugins do

What is known of the plugins without children carries over to the server. An invariant of the shared state may say what the caches hold, and one of the contexts what each job has come to; the rules below are about one plugin and one change of the caches, and hold for every run of the server, whatever order the runtime takes the jobs in.
-/

namespace Lazydns

open Dns

theorem World.shrinks_setCache {w : World} {i : Nat} {c : CachePlugin} (h : (w.caches i).Shrinks c) (j : Nat) :
    (w.caches j).Shrinks ((w.setCache i c).caches j) := by
  rw [World.setCache_caches]
  by_cases hj : j = i
  · subst hj
    rwa [Function.update_self]
  · rw [Function.update_of_ne hj]
    exact .refl _

theorem Outside.apply_shrinks (e : Outside) (w : World) (i : Nat) :
    (w.caches i).Shrinks ((e.apply w).2.caches i) := by
  have hset : ∀ j c, (w.caches j).Shrinks c → (w.caches i).Shrinks ((w.setCache j c).caches i) :=
    fun j c hc => World.shrinks_setCache hc i
  cases e with
  | elapse duration => exact .refl _
  | cleanupCache j => exact hset j _ (CachePlugin.shrinks_cleanupExpired _ _)
  | cleanupLimiter j => exact .refl _
  | clearCache j => exact hset j _ (CachePlugin.shrinks_clear _)
  | runSpawned j n => exact hset j _ (CachePlugin.shrinks_runSpawned _ _ _)
  | takeTask j =>
    rw [apply]
    cases htake : (w.caches j).takeTask with
    | none => exact .refl _
    | some taken => exact hset j _ (CachePlugin.shrinks_takeTask htake)

/-- An invariant `I` of the shared state and one `P` of the context of each job, when `A` is what the cached responses satisfy. -/
structure Invariant (env : Env) (A : Message → Prop) (I : World → Prop) (P : Job → Context → Prop) :
    Prop where
  controlFree : ∀ job, ControlFree (P job)
  holds : ∀ w, I w → CachesHold A w
  leaf : ∀ job l ctx ctx', P job ctx → LeafEffect env A l ctx ctx' → P job ctx'
  store : ∀ job ctx w w', P job ctx → I w → CacheStep env ctx w w' → I w'
  shrink : ∀ w w', I w → (∀ i, (w.caches i).Shrinks (w'.caches i)) → I w'
  initial : ∀ job now, P job (PluginHandler.initialContext now job.entry job.request)
  unanswered : ∀ job, P job (Context.new job.request.message)

namespace Invariant

variable {env : Env} {A : Message → Prop} {I : World → Prop} {P : Job → Context → Prop}

theorem preserves (h : Invariant env A I P) (job : Job) (l : Leaf) :
    l.Preserves env I (fun _ w => I w) (P job) (fun _ => True) := by
  intro ctx hctx
  refine Proc.Within.mono (Leaf.execute_within h.holds l ctx) (fun w w' hw hstep => ?_)
    fun r hr => ⟨h.leaf job l ctx r.2 hctx hr.1, fun _ _ => trivial⟩
  exact h.store job ctx w w' hctx hw hstep

theorem keeps (h : Invariant env A I P) (reg : Registry) (fuel : Nat) :
    (service env reg fuel).Keeps I (fun _ => True) fun job r => P job r.2 := by
  refine service_keeps h.controlFree (fun job _ => Registry.all_of_forall (h.preserves job) reg)
    (fun job _ i ctx _ w hw => ?_) (fun job _ now => h.initial job now)
    (fun job _ => h.unanswered job) (fun i key w hw => ?_) fun e w hw => ⟨?_, fun _ _ => trivial⟩
  · exact h.shrink w _ hw fun j => .refl _
  · exact h.shrink w _ hw fun j => World.shrinks_setCache (CachePlugin.shrinks_finishTask _ _) j
  · exact h.shrink w _ hw (e.apply_shrinks w)

/-- In every state that a run of the server reaches the shared state is in `I`, and the context of every job that has ended in `P`. -/
theorem run {ι : Type} [DecidableEq ι] (h : Invariant env A I P) (reg : Registry) (fuel : Nat)
    {w : World} (hw : I w) (events : List (Event ι Job Outside)) :
    I ((Pool.init w).run (service env reg fuel) events).shared ∧
      ∀ i job r, ((Pool.init w).run (service env reg fuel) events).jobs i = some (job, .ret r) →
        P job r.2 := by
  have hrun : ((Pool.init w).run (service env reg fuel) events).Holds I (fun _ => True)
      fun job r => P job r.2 :=
    Pool.run_holds (h.keeps reg fuel) (fun _ _ _ => trivial) (Pool.holds_init hw)
  exact ⟨hrun.shared, fun i job r hjob => hrun.result hjob⟩

end Invariant

/-! ### What the caches hold -/

end Lazydns
