import Lazydns.Property.Fallback
import Mathlib.Data.Multiset.Dedup
import Mathlib.Data.Finset.Card
import Mathlib.Data.Nat.ModEq

/-!
# Trying every upstream

A request that fails should have tried every upstream, if it is given that many attempts. Each attempt selects an upstream anew from what it finds: a counter that all requests share, the clock, or the average response times. So the request tries them all exactly if what it finds tells its attempts apart: the counters or the clock readings modulo the number of upstreams, or the first upstreams of least average time. A request that has the round robin to itself does, and one that asks for the fastest of several upstreams never does when it is alone.
-/

namespace Lazydns

open Dns

namespace ForwardPlugin

/-! ### The configuration -/

/-- The part of the plugin that no request changes. -/
structure SameConfig (p p' : ForwardPlugin) : Prop where
  addrs : p'.upstreams.map Upstream.addr = p.upstreams.map Upstream.addr
  strategy : p'.strategy = p.strategy
  healthChecksEnabled : p'.healthChecksEnabled = p.healthChecksEnabled
  maxAttempts : p'.maxAttempts = p.maxAttempts
  concurrentQueries : p'.concurrentQueries = p.concurrentQueries

namespace SameConfig

variable {p p' p'' : ForwardPlugin}

theorem refl (p : ForwardPlugin) : SameConfig p p := ⟨rfl, rfl, rfl, rfl, rfl⟩

theorem trans (h : SameConfig p p') (h' : SameConfig p' p'') : SameConfig p p'' where
  addrs := h'.addrs.trans h.addrs
  strategy := h'.strategy.trans h.strategy
  healthChecksEnabled := h'.healthChecksEnabled.trans h.healthChecksEnabled
  maxAttempts := h'.maxAttempts.trans h.maxAttempts
  concurrentQueries := h'.concurrentQueries.trans h.concurrentQueries

theorem length (h : SameConfig p p') : p'.upstreams.length = p.upstreams.length := by
  simpa using congrArg List.length h.addrs

end SameConfig

theorem map_modify_of_eq {α β : Type} {f : α → β} {g : α → α} (h : ∀ a, f (g a) = f a) (l : List α) (i : Nat) :
    (l.modify i g).map f = l.map f := by
  apply List.ext_getElem?
  intro j
  simp only [List.getElem?_map, List.getElem?_modify]
  cases l[j]? with
  | none => rfl
  | some a =>
    simp only [Option.map_some]
    split
    · exact congrArg some (h a)
    · rfl

theorem recordOutcome_config (p : ForwardPlugin) (idx elapsed : Nat) (success : Bool) :
    SameConfig p (p.recordOutcome idx elapsed success) := by
  rw [recordOutcome]
  split
  · refine ⟨?_, rfl, rfl, rfl, rfl⟩
    apply map_modify_of_eq
    exact fun _ => rfl
  · exact .refl p

theorem recordOutcome_current (p : ForwardPlugin) (idx elapsed : Nat) (success : Bool) :
    (p.recordOutcome idx elapsed success).current = p.current := by
  rw [recordOutcome]
  split <;> rfl

theorem firstSuccess_config (lines : List (Nat × Except Error Message × Nat)) :
    ∀ (elapsed : Nat) (p : ForwardPlugin), SameConfig p (firstSuccess lines elapsed p).2.1 := by
  induction lines with
  | nil => exact fun _ p => .refl p
  | cons line rest ih =>
    intro elapsed p
    obtain ⟨idx, result, t⟩ := line
    cases result with
    | ok reply => exact recordOutcome_config p idx t true
    | error e => exact (recordOutcome_config p idx t false).trans (ih t _)

section

variable {env : Env} {i : Nat} {request : Message} {p : ForwardPlugin} {w : World}

theorem setForward_config (j : Nat) {q : ForwardPlugin} (hw : SameConfig p (w.forwards i))
    (hq : SameConfig (w.forwards j) q) : SameConfig p ((w.setForward j q).forwards i) := by
  change SameConfig p (Function.update w.forwards j q i)
  by_cases hij : i = j
  · subst hij
    rw [Function.update_self]
    exact hw.trans hq
  · rwa [Function.update_of_ne hij]

theorem attempt_config (j : Nat) (hw : SameConfig p (w.forwards i)) :
    SameConfig p ((attempt env j request w).2.forwards i) := by
  rw [attempt]
  dsimp only
  split
  · exact hw
  · refine setForward_config j hw (SameConfig.trans ?_ (recordOutcome_config _ _ _ _))
    exact ⟨rfl, rfl, rfl, rfl, rfl⟩

theorem executeConcurrent_config (j : Nat) (hw : SameConfig p (w.forwards i)) :
    SameConfig p ((executeConcurrent env j request w).2.forwards i) :=
  setForward_config j hw (firstSuccess_config _ _ _)

theorem executeSequential_config (j : Nat) (ctx : Context) : ∀ (rounds : Nat) (lastError : Option Error),
    (executeSequential env j request rounds lastError ctx).Within
      (fun w => SameConfig p (w.forwards i)) (fun _ w => SameConfig p (w.forwards i)) (fun _ => True)
      (fun _ => True) := by
  intro rounds
  induction rounds with
  | zero => exact fun _ => Run.within_fail trivial trivial
  | succ rounds ih =>
    intro lastError
    refine Proc.Within.bind (Q := fun _ => True)
      (Proc.within_atomic.mpr fun w hw => ⟨attempt_config j hw, trivial⟩) fun r _ => ?_
    cases r with
    | ok response => exact @Run.within_done _ _ (fun _ => True) _ _ trivial
    | error e => exact ih _

theorem execute_config (j : Nat) (ctx : Context) :
    (execute env j ctx).Within (fun w => SameConfig p (w.forwards i))
      (fun _ w => SameConfig p (w.forwards i)) (fun _ => True) (fun _ => True) := by
  rw [execute]
  split
  · exact Run.within_done trivial
  · refine Proc.Within.bind (Q := fun _ => True)
      (Proc.within_atomic.mpr fun w hw => ⟨hw, trivial⟩) fun q _ => ?_
    refine Proc.Within.bind (Q := fun _ => True) ?_ fun r _ => ?_
    · rw [race]
      split
      · exact Proc.within_atomic.mpr fun w hw => ⟨executeConcurrent_config j hw, trivial⟩
      · trivial
    · cases r with
      | some response => exact @Run.within_done _ _ (fun _ => True) _ _ trivial
      | none => exact executeSequential_config j ctx _ _

end

/-- In every run of the server a forward plugin keeps its configuration. -/
theorem config_kept (env : Env) (reg : Registry) (fuel i : Nat) (p : ForwardPlugin) :
    (service env reg fuel).Keeps (fun w => SameConfig p (w.forwards i)) (fun _ => True)
      fun _ _ => True := by
  have hleaf : ∀ l : Leaf, l.Preserves env (fun w => SameConfig p (w.forwards i))
      (fun _ w => SameConfig p (w.forwards i)) (fun _ => True) (fun _ => True) := by
    intro l ctx _
    cases l with
    | plain q => exact Run.within_done trivial
    | forward j => exact execute_config j ctx
    | downloader => exact Proc.within_atomic.mpr fun w hw => ⟨hw, trivial, fun _ _ => trivial⟩
    | _ => exact Run.within_step fun w hw => ⟨hw, trivial⟩
  refine service_keeps (P := fun _ _ => True) (fun _ => ⟨by simp, by simp, by simp⟩)
    (fun _ _ => Registry.all_of_forall hleaf reg) (fun _ _ _ _ _ w hw => hw) (fun _ _ _ => trivial)
    (fun _ _ => trivial) (fun _ _ w hw => hw) fun e w hw => ⟨?_, fun _ _ => trivial⟩
  cases e with
  | takeTask j =>
    rw [Outside.apply]
    cases (w.caches j).takeTask with
    | none => exact hw
    | some taken => exact hw
  | _ => exact hw

theorem config_of_run {ι : Type} [DecidableEq ι] {env : Env} {reg : Registry} {fuel : Nat} {w₀ : World}
    (i : Nat) (events : List (Event ι Job Outside)) : (w₀.forwards i).SameConfig
      (((Pool.init w₀).run (service env reg fuel) events).shared.forwards i) := by
  have hinit : (Pool.init w₀ : Pool ι World Job Outcome).Holds
      (fun w => (w₀.forwards i).SameConfig (w.forwards i)) (fun _ => True) fun _ _ => True :=
    Pool.holds_init (.refl (w₀.forwards i))
  exact (Pool.run_holds (config_kept env reg fuel i _) (fun _ _ _ => trivial) hinit).shared

/-! ### What an attempt selects -/

def avgTimes (p : ForwardPlugin) : List Nat := p.upstreams.map fun u => u.health.avgResponseTime

/-- The least element is `t`, and its first position is `idx`. -/
structure FirstLeast (times : List Nat) (idx t : Nat) : Prop where
  found : times[idx]? = some t
  least : ∀ t' ∈ times, t ≤ t'
  first : ∀ t' ∈ times.take idx, t < t'

namespace FirstLeast

variable {times : List Nat} {idx idx' t t' : Nat}

theorem lt_length (h : FirstLeast times idx t) : idx < times.length :=
  (List.getElem?_eq_some_iff.mp h.found).1

theorem le_of_firstLeast (h : FirstLeast times idx t) (h' : FirstLeast times idx' t') : idx ≤ idx' := by
  by_contra hlt
  have hmem : t' ∈ times.take idx := by
    apply List.mem_of_getElem? (i := idx')
    rw [List.getElem?_take_of_lt (Nat.lt_of_not_le hlt)]
    exact h'.found
  exact absurd (h'.least t (List.mem_of_getElem? h.found)) (Nat.not_le_of_lt (h.first t' hmem))

theorem eq (h : FirstLeast times idx t) (h' : FirstLeast times idx' t') : idx = idx' :=
  Nat.le_antisymm (h.le_of_firstLeast h') (h'.le_of_firstLeast h)

theorem snoc_of_lt (h : FirstLeast times idx t) (hlt : t' < t) :
    FirstLeast (times ++ [t']) times.length t' where
  found := List.getElem?_concat_length
  least := by
    intro x hx
    rcases List.mem_append.mp hx with hx | hx
    · exact Nat.le_trans (Nat.le_of_lt hlt) (h.least x hx)
    · exact Nat.le_of_eq (List.mem_singleton.mp hx).symm
  first := by
    intro x hx
    rw [List.take_left] at hx
    exact Nat.lt_of_lt_of_le hlt (h.least x hx)

theorem snoc_of_le (h : FirstLeast times idx t) (hle : t ≤ t') : FirstLeast (times ++ [t']) idx t where
  found := by rw [List.getElem?_append_left h.lt_length, h.found]
  least := by
    intro x hx
    rcases List.mem_append.mp hx with hx | hx
    · exact h.least x hx
    · exact (List.mem_singleton.mp hx).symm ▸ hle
  first := by
    intro x hx
    rw [List.take_append_of_le_length (Nat.le_of_lt h.lt_length)] at hx
    exact h.first x hx

end FirstLeast

theorem fastest_firstLeast : ∀ (rest : List Upstream) (seen : List Nat) (best bestTime : Nat),
    FirstLeast seen best bestTime → ∃ t, FirstLeast (seen ++ rest.map fun u => u.health.avgResponseTime)
      (fastest best bestTime rest seen.length) t := by
  intro rest
  induction rest with
  | nil =>
    intro seen best bestTime h
    exact ⟨bestTime, by rwa [List.map_nil, List.append_nil]⟩
  | cons u rest ih =>
    intro seen best bestTime h
    rw [fastest, List.map_cons, List.append_cons]
    rw [show seen.length + 1 = (seen ++ [u.health.avgResponseTime]).length by simp]
    split
    · exact ih _ _ _ (h.snoc_of_le (by omega))
    · split
      · exact ih _ _ _ (h.snoc_of_lt (by omega))
      · exact ih _ _ _ (h.snoc_of_le (by omega))

section

variable {p : ForwardPlugin} (nanos : Nat)

theorem selectUpstream_roundRobin (hstrategy : p.strategy = .roundRobin) (hp : 0 < p.upstreams.length) :
    p.selectUpstream nanos = some (p.current % p.upstreams.length) := by
  rw [selectUpstream]
  cases hupstreams : p.upstreams with
  | nil => simp [hupstreams] at hp
  | cons u rest => simp only [hstrategy, List.length_cons]

theorem selectUpstream_random (hstrategy : p.strategy = .random) (hp : 0 < p.upstreams.length) :
    p.selectUpstream nanos = some (nanos % p.upstreams.length) := by
  rw [selectUpstream]
  cases hupstreams : p.upstreams with
  | nil => simp [hupstreams] at hp
  | cons u rest => simp only [hstrategy, List.length_cons]

/-- The fastest upstream is the first one of least average time. -/
theorem selectUpstream_fastest (hstrategy : p.strategy = .fastest) (hp : 0 < p.upstreams.length) :
    ∃ idx t, p.selectUpstream nanos = some idx ∧ FirstLeast p.avgTimes idx t := by
  rw [selectUpstream, avgTimes]
  cases hupstreams : p.upstreams with
  | nil => simp [hupstreams] at hp
  | cons u rest =>
    have hfirst : FirstLeast [u.health.avgResponseTime] 0 u.health.avgResponseTime :=
      ⟨rfl, by simp, by simp⟩
    obtain ⟨t, ht⟩ := fastest_firstLeast rest _ _ _ hfirst
    simp only [hstrategy]
    exact ⟨_, t, rfl, ht⟩

theorem selectUpstream_lt (hp : 0 < p.upstreams.length) :
    ∃ idx, p.selectUpstream nanos = some idx ∧ idx < p.upstreams.length := by
  cases hstrategy : p.strategy with
  | roundRobin => exact ⟨_, selectUpstream_roundRobin nanos hstrategy hp, Nat.mod_lt _ hp⟩
  | random => exact ⟨_, selectUpstream_random nanos hstrategy hp, Nat.mod_lt _ hp⟩
  | fastest =>
    obtain ⟨idx, t, hselected, hfirst⟩ := selectUpstream_fastest nanos hstrategy hp
    exact ⟨idx, hselected, by simpa [avgTimes] using hfirst.lt_length⟩

end

def selected (env : Env) (i : Nat) (w : World) : Option Nat :=
  (w.forwards i).selectUpstream (env.nanos w.exchanges)

/-- Two states in which a request would select different upstreams: the counters or the clock readings differ modulo the number of upstreams, or no upstream is the first of least average time in both. -/
def ToldApart (env : Env) (i : Nat) (strategy : LoadBalanceStrategy) (n : Nat) (w w' : World) : Prop :=
  match strategy with
  | .roundRobin => (w.forwards i).current % n ≠ (w'.forwards i).current % n
  | .random => env.nanos w.exchanges % n ≠ env.nanos w'.exchanges % n
  | .fastest => ∀ idx t t', FirstLeast (w.forwards i).avgTimes idx t →
      ¬FirstLeast (w'.forwards i).avgTimes idx t'

theorem selected_ne_iff {env : Env} {i : Nat} {p : ForwardPlugin} {w w' : World}
    (hw : p.SameConfig (w.forwards i)) (hw' : p.SameConfig (w'.forwards i)) (hp : 0 < p.upstreams.length) :
    selected env i w ≠ selected env i w' ↔ ToldApart env i p.strategy p.upstreams.length w w' := by
  have hpos : 0 < (w.forwards i).upstreams.length := by rwa [hw.length]
  have hpos' : 0 < (w'.forwards i).upstreams.length := by rwa [hw'.length]
  rw [selected, selected]
  cases hstrategy : p.strategy with
  | roundRobin =>
    rw [selectUpstream_roundRobin _ (hw.strategy.trans hstrategy) hpos,
      selectUpstream_roundRobin _ (hw'.strategy.trans hstrategy) hpos', hw.length, hw'.length]
    exact not_congr Option.some_inj
  | random =>
    rw [selectUpstream_random _ (hw.strategy.trans hstrategy) hpos,
      selectUpstream_random _ (hw'.strategy.trans hstrategy) hpos', hw.length, hw'.length]
    exact not_congr Option.some_inj
  | fastest =>
    obtain ⟨idx, t, hselected, hfirst⟩ := selectUpstream_fastest
      (env.nanos w.exchanges) (hw.strategy.trans hstrategy) hpos
    obtain ⟨idx', t', hselected', hfirst'⟩ := selectUpstream_fastest
      (env.nanos w'.exchanges) (hw'.strategy.trans hstrategy) hpos'
    rw [hselected, hselected']
    constructor
    · intro hne j u u' hj hj'
      exact hne (congrArg some ((hfirst.eq hj).trans (hj'.eq hfirst')))
    · intro hapart heq
      cases Option.some.inj heq
      exact hapart idx t t' hfirst hfirst'

/-! ### What a failed request has tried -/

variable {env : Env} {i : Nat} {request : Message} {ctx ctx' : Context} {stop : Stop}

/-- A request that fails has used all its attempts, and every one of them failed. -/
theorem failed_path : ∀ (rounds : Nat) (lastError : Option Error) (ws : List World),
    Proc.Path (executeSequential env i request rounds lastError ctx) ws (.error stop, ctx') →
      ws.length = rounds ∧ ∀ w ∈ ws, ∃ e, (attempt env i request w).1 = .error e := by
  intro rounds
  induction rounds with
  | zero =>
    intro lastError ws hpath
    rw [executeSequential, Run.fail] at hpath
    cases hpath
    exact ⟨rfl, fun w hw => absurd hw List.not_mem_nil⟩
  | succ rounds ih =>
    intro lastError ws hpath
    obtain ⟨w, ws, rfl, hrest⟩ := Proc.Path.atomic_bind hpath
    cases hresult : (attempt env i request w).1 with
    | ok response =>
      rw [hresult] at hrest
      cases hrest
    | error e =>
      rw [hresult] at hrest
      obtain ⟨hlength, hfailed⟩ := ih (some e) ws hrest
      refine ⟨by rw [List.length_cons, hlength], fun w' hw' => ?_⟩
      rcases List.mem_cons.mp hw' with rfl | hw'
      · exact ⟨e, hresult⟩
      · exact hfailed w' hw'

/-- A list of `n` numbers below `n` has each of them exactly if it has none twice. -/
theorem covers_iff_nodup {n : Nat} {l : List (Option Nat)} (hlength : l.length = n)
    (hlt : ∀ o ∈ l, ∃ idx, o = some idx ∧ idx < n) : (∀ idx < n, some idx ∈ l) ↔ l.Nodup := by
  have hsubset : l.toFinset ⊆ (Finset.range n).map ⟨some, Option.some_injective _⟩ := by
    intro o ho
    obtain ⟨idx, rfl, hidx⟩ := hlt o (List.mem_toFinset.mp ho)
    exact Finset.mem_map.mpr ⟨idx, Finset.mem_range.mpr hidx, rfl⟩
  have hcard : ((Finset.range n).map ⟨some, Option.some_injective _⟩).card = n := by
    rw [Finset.card_map, Finset.card_range]
  rw [← Multiset.coe_nodup, ← Multiset.toFinset_card_eq_card_iff_nodup, Multiset.coe_card, hlength]
  constructor
  · intro hcovers
    have heq : l.toFinset = (Finset.range n).map ⟨some, Option.some_injective _⟩ := by
      refine hsubset.antisymm fun o ho => ?_
      obtain ⟨idx, hidx, rfl⟩ := Finset.mem_map.mp ho
      exact List.mem_toFinset.mpr (hcovers idx (Finset.mem_range.mp hidx))
    exact (congrArg Finset.card heq).trans hcard
  · intro hfull idx hidx
    have heq := Finset.eq_of_subset_of_card_le hsubset (by rw [hcard]; exact Nat.le_of_eq hfull.symm)
    apply List.mem_toFinset.mp
    rw [heq]
    exact Finset.mem_map.mpr ⟨idx, Finset.mem_range.mpr hidx, rfl⟩

theorem attempt_error {w : World} {idx : Nat} {u : Upstream} {e : Error}
    (hselected : selected env i w = some idx) (hu : (w.forwards i).upstreams[idx]? = some u)
    (herror : (attempt env i request w).1 = .error e) :
    (forwardQuery env w.exchanges request u.addr).1 = .error e := by
  rw [selected] at hselected
  rw [attempt, hselected] at herror
  dsimp only at herror
  rwa [hu, Option.map_some, Option.getD_some] at herror

/-! ### A request that runs alone -/

theorem attempt_failed {w : World} {e : Error} (hpos : 0 < (w.forwards i).upstreams.length)
    (herror : (attempt env i request w).1 = .error e) :
    ∃ idx elapsed, (attempt env i request w).2.forwards i =
      { w.forwards i with current := ((w.forwards i).current + 1) % 2 ^ 64 }.recordOutcome
        idx elapsed false := by
  obtain ⟨idx, hselected, -⟩ := selectUpstream_lt (env.nanos w.exchanges) hpos
  rw [attempt, hselected] at herror ⊢
  dsimp only at herror ⊢
  refine ⟨idx, (forwardQuery env w.exchanges request
    (((w.forwards i).upstreams[idx]?.map Upstream.addr).getD "")).2, ?_⟩
  rw [herror]
  exact Function.update_self ..

theorem run_succ (rounds : Nat) (lastError : Option Error) (w : World) :
    (executeSequential env i request (rounds + 1) lastError ctx).run w =
      (match (attempt env i request w).1 with
        | .ok response => Run.done (ctx.setResponse (some response))
        | .error e => executeSequential env i request rounds (some e) ctx).run (attempt env i request w).2 := rfl

theorem trace_eq (rounds : Nat) (lastError : Option Error) (w : World) :
    (executeSequential env i request (rounds + 1) lastError ctx).trace w =
      w :: (match (attempt env i request w).1 with
        | .ok response => Run.done (ctx.setResponse (some response))
        | .error e => executeSequential env i request rounds (some e) ctx).trace (attempt env i request w).2 := rfl

/-- A failed request that runs alone finds, at each step, a state that its own failed attempts lead to. -/
theorem trace_succ {rounds : Nat} {lastError : Option Error} {w : World}
    (hfails : ((executeSequential env i request (rounds + 1) lastError ctx).run w).1 =
      (.error stop, ctx')) :
    ∃ e, (attempt env i request w).1 = .error e ∧
      (executeSequential env i request (rounds + 1) lastError ctx).trace w =
        w :: (executeSequential env i request rounds (some e) ctx).trace (attempt env i request w).2 ∧
      ((executeSequential env i request rounds (some e) ctx).run (attempt env i request w).2).1 =
        (.error stop, ctx') := by
  rw [run_succ] at hfails
  rw [trace_eq]
  cases hresult : (attempt env i request w).1 with
  | ok response =>
    rw [hresult] at hfails
    cases hfails
  | error e =>
    rw [hresult] at hfails
    exact ⟨e, rfl, rfl, hfails⟩

/-- Alone, with the counter short of its end, the attempts of a failed request find one count after the other. -/
theorem current_trace : ∀ (rounds : Nat) (lastError : Option Error) (w : World),
    0 < (w.forwards i).upstreams.length → (w.forwards i).current + rounds ≤ 2 ^ 64 →
    ((executeSequential env i request rounds lastError ctx).run w).1 = (.error stop, ctx') →
    ((executeSequential env i request rounds lastError ctx).trace w).map
        (fun w' => (w'.forwards i).current) =
      (List.range rounds).map ((w.forwards i).current + ·) := by
  intro rounds
  induction rounds with
  | zero => exact fun _ _ _ _ _ => rfl
  | succ rounds ih =>
    intro lastError w hpos hcounter hfails
    obtain ⟨e, herror, htrace, hrest⟩ := trace_succ hfails
    obtain ⟨idx, elapsed, hleft⟩ := attempt_failed hpos herror
    have hconfig := recordOutcome_config
      { w.forwards i with current := ((w.forwards i).current + 1) % 2 ^ 64 } idx elapsed false
    have hcurrent : ((attempt env i request w).2.forwards i).current =
        ((w.forwards i).current + 1) % 2 ^ 64 := by
      rw [hleft, recordOutcome_current]
    rw [htrace, List.map_cons, List.range_succ_eq_map, List.map_cons, List.map_map]
    refine congrArg₂ List.cons rfl ?_
    rcases Nat.eq_zero_or_pos rounds with rfl | hrounds
    · rfl
    · rw [Nat.mod_eq_of_lt (by omega)] at hcurrent
      rw [ih (some e) _ (by rw [hleft, hconfig.length]; exact hpos) (by omega) hrest, hcurrent]
      refine List.map_congr_left fun k _ => ?_
      simp only [Function.comp_apply, Nat.succ_eq_add_one]
      omega

/-- So with round robin what it finds tells its attempts apart. -/
theorem roundRobin_alone {w : World}
    (hcounter : (w.forwards i).current + (w.forwards i).upstreams.length ≤ 2 ^ 64)
    (hfails : ((executeSequential env i request (w.forwards i).upstreams.length none ctx).run w).1 =
      (.error stop, ctx')) :
    ((executeSequential env i request (w.forwards i).upstreams.length none ctx).trace w).Pairwise
      (ToldApart env i .roundRobin (w.forwards i).upstreams.length) := by
  rcases Nat.eq_zero_or_pos (w.forwards i).upstreams.length with hzero | hpos
  · rw [hzero]
    exact List.Pairwise.nil
  · have hcounts : (((executeSequential env i request (w.forwards i).upstreams.length none ctx).trace w).map
        fun w' => (w'.forwards i).current).Pairwise
          fun a b => a % (w.forwards i).upstreams.length ≠ b % (w.forwards i).upstreams.length := by
      rw [current_trace _ _ _ hpos hcounter hfails, List.pairwise_map]
      refine List.Pairwise.imp_of_mem (fun {a b} ha hb hlt hmod => ?_) List.pairwise_lt_range
      have hsame : Nat.ModEq (w.forwards i).upstreams.length a b := Nat.ModEq.add_left_cancel' _ hmod
      have heq := hsame.eq_of_lt_of_lt (List.mem_range.mp ha) (List.mem_range.mp hb)
      omega
    rw [List.pairwise_map] at hcounts
    exact hcounts

theorem recordFailure_avgTimes (p : ForwardPlugin) (idx elapsed : Nat) :
    (p.recordOutcome idx elapsed false).avgTimes = p.avgTimes := by
  rw [recordOutcome]
  split
  · apply map_modify_of_eq
    exact fun _ => rfl
  · rfl

theorem avgTimes_trace : ∀ (rounds : Nat) (lastError : Option Error) (w : World),
    0 < (w.forwards i).upstreams.length →
    ((executeSequential env i request rounds lastError ctx).run w).1 = (.error stop, ctx') →
    ∀ w' ∈ (executeSequential env i request rounds lastError ctx).trace w,
      (w'.forwards i).avgTimes = (w.forwards i).avgTimes := by
  intro rounds
  induction rounds with
  | zero => exact fun _ _ _ _ w' hw' => absurd hw' List.not_mem_nil
  | succ rounds ih =>
    intro lastError w hpos hfails w' hw'
    obtain ⟨e, herror, htrace, hrest⟩ := trace_succ hfails
    obtain ⟨idx, elapsed, hleft⟩ := attempt_failed hpos herror
    rw [htrace] at hw'
    rcases List.mem_cons.mp hw' with rfl | hw'
    · rfl
    · have hlength : ((attempt env i request w).2.forwards i).upstreams.length =
          (w.forwards i).upstreams.length := by
        rw [hleft]
        exact (recordOutcome_config _ idx elapsed false).length
      rw [ih (some e) _ (by rwa [hlength]) hrest w' hw', hleft]
      exact recordFailure_avgTimes _ idx elapsed

/-- A failed request that is alone with the fastest of several upstreams finds no difference between its attempts. -/
theorem fastest_alone {rounds : Nat} {lastError : Option Error} {w : World}
    (hpos : 0 < (w.forwards i).upstreams.length) (hstrategy : (w.forwards i).strategy = .fastest)
    (hrounds : 2 ≤ rounds)
    (hfails : ((executeSequential env i request rounds lastError ctx).run w).1 = (.error stop, ctx')) :
    ¬((executeSequential env i request rounds lastError ctx).trace w).Pairwise
      (ToldApart env i .fastest (w.forwards i).upstreams.length) := by
  have hlength := (failed_path rounds lastError _ (hfails ▸ Proc.path_trace _ w)).1
  have htimes := avgTimes_trace rounds lastError w hpos hfails
  obtain ⟨idx, t, -, hfirst⟩ := selectUpstream_fastest 0 hstrategy hpos
  generalize (executeSequential env i request rounds lastError ctx).trace w = ws at hlength htimes
  match ws with
  | [] | [_] =>
    simp only [List.length_nil, List.length_singleton] at hlength
    omega
  | w₁ :: w₂ :: rest =>
    intro hapart
    have hne := (List.pairwise_cons.mp hapart).1 w₂ List.mem_cons_self
    refine hne idx t t ?_ ?_
    · rwa [htimes w₁ List.mem_cons_self]
    · rwa [htimes w₂ (List.mem_cons_of_mem _ List.mem_cons_self)]

/-! ### The law -/

/-- A failed request with enough attempts tried every upstream exactly if what it found tells its attempts apart. -/
theorem tried_all_iff {p : ForwardPlugin} {ws : List World} (hattempts : p.upstreams.length ≤ p.maxAttempts)
    (hconfig : ∀ w ∈ ws, p.SameConfig (w.forwards i))
    (hpath : Proc.Path (executeSequential env i request (min p.maxAttempts p.upstreams.length) none ctx)
      ws (.error stop, ctx')) :
    (∀ idx < p.upstreams.length, ∃ w ∈ ws, selected env i w = some idx) ↔
      ws.Pairwise (ToldApart env i p.strategy p.upstreams.length) := by
  obtain ⟨hlength, -⟩ := failed_path _ none ws hpath
  rw [Nat.min_eq_right hattempts] at hlength
  have hpos : ∀ w ∈ ws, 0 < p.upstreams.length :=
    fun w hw => hlength ▸ List.length_pos_of_mem hw
  have hlt : ∀ o ∈ ws.map (selected env i), ∃ idx, o = some idx ∧ idx < p.upstreams.length := by
    intro o ho
    obtain ⟨w, hw, rfl⟩ := List.mem_map.mp ho
    have hsame := (hconfig w hw).length
    obtain ⟨idx, hselected, hidx⟩ := selectUpstream_lt (env.nanos w.exchanges) (hsame ▸ hpos w hw)
    exact ⟨idx, hselected, hsame ▸ hidx⟩
  have hcovers := covers_iff_nodup (by rw [List.length_map, hlength]) hlt
  simp only [List.mem_map] at hcovers
  rw [hcovers, List.nodup_iff_pairwise_ne, List.pairwise_map]
  exact List.Pairwise.iff_of_mem fun {w w'} hw hw' =>
    selected_ne_iff (hconfig w hw) (hconfig w' hw') (hpos w hw)

/-- Then none of the upstreams answered it. -/
theorem no_answer_of_tried {p : ForwardPlugin} {rounds : Nat} {ws : List World}
    (hconfig : ∀ w ∈ ws, p.SameConfig (w.forwards i))
    (hpath : Proc.Path (executeSequential env i request rounds none ctx) ws (.error stop, ctx'))
    (htried : ∀ idx < p.upstreams.length, ∃ w ∈ ws, selected env i w = some idx) :
    ∀ u ∈ p.upstreams, ∃ n e, (forwardQuery env n request u.addr).1 = .error e := by
  intro u hu
  obtain ⟨idx, hidx, rfl⟩ := List.mem_iff_getElem.mp hu
  obtain ⟨w, hw, hselected⟩ := htried idx hidx
  obtain ⟨e, herror⟩ := (failed_path _ none ws hpath).2 w hw
  have haddr := congrArg (fun l => l[idx]?) (hconfig w hw).addrs
  simp only [List.getElem?_map, List.getElem?_eq_getElem hidx, Option.map_some] at haddr
  obtain ⟨u, hfound, hsame⟩ := Option.map_eq_some_iff.mp haddr
  refine ⟨w.exchanges, e, ?_⟩
  rw [← hsame]
  exact attempt_error hselected hfound herror

/-- In every run of the server, whatever the other requests do in between: a failed request with enough attempts tried every upstream exactly if the counters, the clock readings or the average times it found tell its attempts apart, and then none of the upstreams answered it. -/
theorem failover_iff {ι : Type} [DecidableEq ι] {reg : Registry} {fuel : Nat} {w₀ : World} {ws : List World}
    (hattempts : (w₀.forwards i).upstreams.length ≤ (w₀.forwards i).maxAttempts)
    (hfound : ∀ w ∈ ws, ∃ events : List (Event ι Job Outside),
      ((Pool.init w₀).run (service env reg fuel) events).shared = w)
    (hpath : Proc.Path (executeSequential env i request
      (min (w₀.forwards i).maxAttempts (w₀.forwards i).upstreams.length) none ctx) ws (.error stop, ctx')) :
    ((∀ idx < (w₀.forwards i).upstreams.length, ∃ w ∈ ws, selected env i w = some idx) ↔
        ws.Pairwise (ToldApart env i (w₀.forwards i).strategy (w₀.forwards i).upstreams.length)) ∧
      (ws.Pairwise (ToldApart env i (w₀.forwards i).strategy (w₀.forwards i).upstreams.length) →
        ∀ u ∈ (w₀.forwards i).upstreams, ∃ n e, (forwardQuery env n request u.addr).1 = .error e) := by
  have hconfig : ∀ w ∈ ws, (w₀.forwards i).SameConfig (w.forwards i) := by
    intro w hw
    obtain ⟨events, rfl⟩ := hfound w hw
    exact config_of_run i events
  have htried := tried_all_iff hattempts hconfig hpath
  exact ⟨htried, fun hapart => no_answer_of_tried hconfig hpath (htried.mpr hapart)⟩

/-- A request all of whose attempts fail comes to an error, whatever states it finds. -/
theorem exists_path_of_failed : ∀ (ws : List World) (lastError : Option Error),
    (∀ w ∈ ws, (attempt env i request w).1.toBool = false) →
    ∃ e, Proc.Path (executeSequential env i request ws.length lastError ctx) ws (.error (.error e), ctx) := by
  intro ws
  induction ws with
  | nil => exact fun lastError _ => ⟨_, .ret _⟩
  | cons w ws ih =>
    intro lastError hfails
    cases hresult : (attempt env i request w).1 with
    | ok response => exact absurd (hfails w List.mem_cons_self) (by rw [hresult]; simp [Except.toBool])
    | error e =>
      obtain ⟨e', hpath⟩ := ih (some e) fun w' hw' => hfails w' (List.mem_cons_of_mem _ hw')
      refine ⟨e', .step ?_⟩
      change Proc.Path (match (attempt env i request w).1 with
        | .ok response => Run.done (ctx.setResponse (some response))
        | .error e => executeSequential env i request ws.length (some e) ctx) ws _
      rw [hresult]
      exact hpath

def balanced (strategy : LoadBalanceStrategy) : World :=
  { World.fresh with
    forwards := fun _ => { ForwardPlugin.new ["192.0.2.1", "192.0.2.2"] with strategy := strategy } }

def forwardOnly : Registry := .ofList [("main", .sequence none [.exec (.leaf (.forward 0))])]

def twoAsk (steps : List Nat) : List (Event Nat Job Outside) :=
  .start 7 (.client "main" (.new (.ask 7 "a." .A) .udp)) ::
    .start 8 (.client "main" (.new (.ask 8 "a." .A) .udp)) :: steps.map .run

def afterSteps (env : Env) (strategy : LoadBalanceStrategy) (steps : List Nat) : World :=
  ((Pool.init (balanced strategy)).run (service env forwardOnly 4) (twoAsk steps)).shared

/-- A request whose attempts fail in two such states comes to an error, and runs of the server lead to them. -/
theorem found_of_steps {env : Env} {strategy : LoadBalanceStrategy} {steps steps' : List Nat}
    (hfails : ∀ w ∈ [afterSteps env strategy steps, afterSteps env strategy steps'],
      (attempt env 0 (.ask 7 "a." .A) w).1.toBool = false) :
    (∃ e, Proc.Path (executeSequential env 0 (.ask 7 "a." .A) 2 none (.new (.ask 7 "a." .A)))
        [afterSteps env strategy steps, afterSteps env strategy steps']
        (.error (.error e), .new (.ask 7 "a." .A))) ∧
      ∀ w ∈ [afterSteps env strategy steps, afterSteps env strategy steps'],
        ∃ events : List (Event Nat Job Outside),
          ((Pool.init (balanced strategy)).run (service env forwardOnly 4) events).shared = w := by
  refine ⟨exists_path_of_failed _ none hfails, fun w hw => ?_⟩
  simp only [List.mem_cons, List.not_mem_nil, or_false] at hw
  exact hw.elim (fun h => ⟨_, h.symm⟩) (fun h => ⟨_, h.symm⟩)

/-- Round robin, both upstreams down: between the two attempts of one request another one asks twice. The counts 0 and 3 still tell the attempts apart, and both upstreams were asked. -/
theorem failover_iff_interleaved :
    let env := Env.answering (.error (.other "down"))
    let ws := [afterSteps env .roundRobin [7, 7], afterSteps env .roundRobin [7, 7, 7, 8, 8, 8, 8]]
    ws.map (fun w => (w.forwards 0).current) = [0, 3] ∧
      ws.Pairwise (ToldApart env 0 .roundRobin 2) ∧ ∀ idx < 2, ∃ w ∈ ws, selected env 0 w = some idx := by
  intro env ws
  have hcurrent : ws.map (fun w => (w.forwards 0).current) = [0, 3] := by decide +kernel
  obtain ⟨⟨e, hpath⟩, hfound⟩ := @found_of_steps env .roundRobin [7, 7] [7, 7, 7, 8, 8, 8, 8]
    (by decide +kernel)
  have hiff := (@failover_iff env 0 (.ask 7 "a." .A) _ _ _ Nat _ forwardOnly 4 (balanced .roundRobin) ws
    (by decide) hfound hpath).1
  have hapart : ws.Pairwise (ToldApart env 0 .roundRobin 2) := by
    have hcounts : (ws.map fun w => (w.forwards 0).current).Pairwise fun a b => a % 2 ≠ b % 2 := by
      rw [hcurrent]
      decide
    rw [List.pairwise_map] at hcounts
    exact hcounts
  exact ⟨hcurrent, hapart, hiff.mpr hapart⟩

/-- An upstream is down, the other answers. -/
def oneDown : Env :=
  .twoUpstreams (.error (.other "down"))

/-- A request that is alone and asks for the fastest of two upstreams fails although the second one answers everything, because it asks the first one twice. -/
theorem not_failover_fastest : ¬ ∀ (env : Env) (i : Nat) (request : Message) (ctx ctx' : Context)
    (stop : Stop) (reg : Registry) (fuel : Nat) (w₀ : World) (ws : List World),
    (w₀.forwards i).upstreams.length ≤ (w₀.forwards i).maxAttempts →
    (∀ w ∈ ws, ∃ events : List (Event Nat Job Outside),
      ((Pool.init w₀).run (service env reg fuel) events).shared = w) →
    Proc.Path (executeSequential env i request
      (min (w₀.forwards i).maxAttempts (w₀.forwards i).upstreams.length) none ctx) ws (.error stop, ctx') →
    (∀ idx < (w₀.forwards i).upstreams.length, ∃ w ∈ ws, selected env i w = some idx) ∧
      ¬ ∃ u ∈ (w₀.forwards i).upstreams, ∀ n, ∃ reply, (forwardQuery env n request u.addr).1 = .ok reply := by
  intro h
  obtain ⟨⟨e, hpath⟩, hfound⟩ := @found_of_steps oneDown .fastest [7, 7] [7, 7, 7] (by decide +kernel)
  have hselected : [afterSteps oneDown .fastest [7, 7], afterSteps oneDown .fastest [7, 7, 7]].map
      (selected oneDown 0) = [some 0, some 0] := by
    decide +kernel
  obtain ⟨htried, -⟩ := h oneDown 0 (.ask 7 "a." .A) (.new (.ask 7 "a." .A)) _ _ forwardOnly 4
    (balanced .fastest) _ (by decide) hfound hpath
  obtain ⟨w, hw, hone⟩ := htried 1 (by decide)
  have hmem := List.mem_map_of_mem (f := selected oneDown 0) hw
  rw [hselected, hone] at hmem
  exact absurd hmem (by decide)

end ForwardPlugin

end Lazydns
