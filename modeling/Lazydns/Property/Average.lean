import Lazydns.Plugin.Health

/-!
# The average response time under concurrent calls

An update may use a count that others have overtaken, so that the average is off while the call that found the count zero is on its way: that call sets the average to its own time. From then on every update takes a weighted mean, with whatever weight, of an average and a time between the least and the greatest time.
-/

namespace Lazydns

namespace UpstreamHealth

/-! ### Steps -/

inductive Moves (h : UpstreamHealth) : Call → UpstreamHealth → Stage → Prop
  | query (record : Record) : Moves h ⟨record, .start⟩ { h with queries := h.queries + 1 } .queried
  | count (time : Nat) :
    Moves h ⟨.success time, .queried⟩ { h with successes := h.successes + 1 } (.counted h.successes)
  | fail : Moves h ⟨.failure, .queried⟩ { h with failures := h.failures + 1 } .done
  | load (time k : Nat) : Moves h ⟨.success time, .counted k⟩ h (.loaded k h.avgResponseTime)
  | reload (record : Record) (k oldAvg : Nat) : Moves h ⟨record, .loaded k oldAvg⟩ h (.loaded k h.avgResponseTime)
  | store (time k : Nat) :
    Moves h ⟨.success time, .loaded k h.avgResponseTime⟩
      { h with avgResponseTime := if k = 0 then time else (h.avgResponseTime * k + time) / (k + 1) } .done

theorem Call.moves {h h' : UpstreamHealth} {call : Call} {stage : Stage} (hno : call.NoOverflow h)
    (hstep : call.step h = some (h', stage)) : Moves h call h' stage := by
  obtain ⟨record, before⟩ := call
  cases before with
  | start =>
    cases hstep
    rw [Nat.mod_eq_of_lt hno]
    exact .query record
  | queried =>
    cases record with
    | success time =>
      cases hstep
      rw [Nat.mod_eq_of_lt hno]
      exact .count time
    | failure =>
      cases hstep
      rw [Nat.mod_eq_of_lt hno]
      exact .fail
  | counted k =>
    cases record with
    | success time =>
      cases hstep
      exact .load time k
    | failure => cases hstep
  | loaded k oldAvg =>
    cases record with
    | success time =>
      change (if h.avgResponseTime = oldAvg then
          some ({ h with avgResponseTime := newAvg k oldAvg (time % 2 ^ 64) }, Stage.done)
        else some (h, .loaded k h.avgResponseTime)) = some (h', stage) at hstep
      by_cases havg : h.avgResponseTime = oldAvg
      · rw [if_pos havg] at hstep
        subst havg
        cases hstep
        obtain ⟨htime, hk, hsum⟩ := hno
        rw [newAvg, Nat.mod_eq_of_lt htime, Nat.mod_eq_of_lt hk, Nat.mod_eq_of_lt hsum]
        exact .store time k
      · rw [if_neg havg] at hstep
        cases hstep
        exact .reload _ k oldAvg
    | failure => cases hstep
  | done => cases record <;> cases hstep

theorem System.step_cases {s s' : System} {e : Event} (hno : NoOverflow s e s') (hstep : machine.step s e = some s') :
    (∃ record, s' = { s with calls := s.calls ++ [⟨record, .start⟩] }) ∨
      ∃ i call h stage, s.calls[i]? = some call ∧ Moves s.health call h stage ∧ s' = s.update i call h stage := by
  cases e with
  | call record =>
    cases hstep
    exact .inl ⟨record, rfl⟩
  | step i =>
    obtain ⟨call, hcall, hstep⟩ := Option.bind_eq_some_iff.mp hstep
    obtain ⟨⟨h, stage⟩, hmove, hstep⟩ := Option.bind_eq_some_iff.mp hstep
    cases hstep
    exact .inr ⟨i, call, h, stage, hcall, call.moves (hno call hcall) hmove, rfl⟩
  | spurious i =>
    obtain ⟨call, hcall, hstep⟩ := Option.bind_eq_some_iff.mp hstep
    obtain ⟨record, stage⟩ := call
    cases stage with
    | loaded k oldAvg =>
      cases hstep
      exact .inr ⟨i, _, _, _, hcall, .reload record k oldAvg, rfl⟩
    | _ => cases hstep

/-! ### The weighted mean -/

theorem le_weightedMean {a b k lo : Nat} (ha : lo ≤ a) (hb : lo ≤ b) : lo ≤ (a * k + b) / (k + 1) := by
  rw [Nat.le_div_iff_mul_le (Nat.succ_pos k), Nat.mul_succ]
  exact Nat.add_le_add (Nat.mul_le_mul_right k ha) hb

theorem weightedMean_le {a b k hi : Nat} (ha : a ≤ hi) (hb : b ≤ hi) : (a * k + b) / (k + 1) ≤ hi := by
  refine Nat.div_le_of_le_mul ?_
  rw [Nat.succ_mul, Nat.mul_comm k]
  exact Nat.add_le_add (Nat.mul_le_mul_right k ha) hb

/-! ### The invariant -/

namespace System

variable {s s' : System}

def Recorded (s : System) (time : Nat) : Prop := (⟨.success time, .done⟩ : Call) ∈ s.calls

def Between (s : System) (avg : Nat) : Prop := (∃ t, s.Recorded t ∧ t ≤ avg) ∧ ∃ t, s.Recorded t ∧ avg ≤ t

/-- The call that found no success before it is on its way to set the average. -/
def FirstPending (s : System) : Prop :=
  ∃ call ∈ s.calls, ∃ t, call.record = .success t ∧ (call.stage = .counted 0 ∨ ∃ old, call.stage = .loaded 0 old)

structure Sane (s : System) : Prop where
  sum : s.health.queries = s.health.successes + s.health.failures + s.calls.countP fun call => call.stage = .queried
  none : s.health.successes = 0 → s.health.avgResponseTime = 0 ∧
    ∀ call ∈ s.calls, ∀ t, call.record = .success t → call.stage = .start ∨ call.stage = .queried
  average : s.health.successes ≠ 0 → s.FirstPending ∨ s.Between s.health.avgResponseTime

theorem sane_new : Sane .new := ⟨rfl, fun _ => ⟨rfl, nofun⟩, fun h => absurd rfl h⟩

theorem mem_update_self {i : Nat} {call : Call} (hcall : s.calls[i]? = some call) (h : UpstreamHealth) (stage : Stage) :
    { call with stage } ∈ (s.update i call h stage).calls := by
  obtain ⟨hi, -⟩ := List.getElem?_eq_some_iff.mp hcall
  exact List.mem_set hi _

theorem mem_update_of_ne {i : Nat} {call other : Call} (hcall : s.calls[i]? = some call) (hmem : other ∈ s.calls)
    (hne : other ≠ call) (h : UpstreamHealth) (stage : Stage) : other ∈ (s.update i call h stage).calls := by
  obtain ⟨j, hj⟩ := List.mem_iff_getElem?.mp hmem
  refine List.mem_iff_getElem?.mpr ⟨j, ?_⟩
  have hij : i ≠ j := by
    rintro rfl
    exact hne (Option.some.inj (hj.symm.trans hcall))
  rw [update, List.getElem?_set_ne hij, hj]

theorem Recorded.update {i : Nat} {call : Call} (hcall : s.calls[i]? = some call) {h : UpstreamHealth} {stage : Stage}
    (hmove : Moves s.health call h stage) {t : Nat} (ht : s.Recorded t) : (s.update i call h stage).Recorded t := by
  refine mem_update_of_ne hcall ht ?_ h stage
  rintro rfl
  cases hmove

theorem Between.update {i : Nat} {call : Call} (hcall : s.calls[i]? = some call) {h : UpstreamHealth} {stage : Stage}
    (hmove : Moves s.health call h stage) {avg : Nat} (hbetween : s.Between avg) :
    (s.update i call h stage).Between avg := by
  obtain ⟨⟨t, ht, hlow⟩, t', ht', hhigh⟩ := hbetween
  exact ⟨⟨t, ht.update hcall hmove, hlow⟩, t', ht'.update hcall hmove, hhigh⟩

theorem Between.weightedMean {avg time k : Nat} (h : s.Between avg) (htime : s.Recorded time) :
    s.Between ((avg * k + time) / (k + 1)) := by
  obtain ⟨⟨t, ht, hlow⟩, t', ht', hhigh⟩ := h
  rcases Nat.le_total avg time with hle | hle
  · exact ⟨⟨t, ht, le_weightedMean hlow (hlow.trans hle)⟩, time, htime, weightedMean_le hle le_rfl⟩
  · exact ⟨⟨time, htime, le_weightedMean hle le_rfl⟩, t', ht', weightedMean_le hhigh (hle.trans hhigh)⟩

theorem FirstPending.update {i : Nat} {call : Call} (hcall : s.calls[i]? = some call) {h : UpstreamHealth}
    {stage : Stage} (hmove : Moves s.health call h stage) (hpending : s.FirstPending) :
    (s.update i call h stage).FirstPending ∨ (s.update i call h stage).Between h.avgResponseTime := by
  obtain ⟨first, hmem, time, htime, hstage⟩ := hpending
  by_cases hfirst : first = call
  · subst hfirst
    have hself := mem_update_self hcall h stage
    cases hmove with
    | load t k =>
      rcases hstage with hcounted | ⟨old, hloaded⟩
      · cases hcounted
        exact .inl ⟨_, hself, t, rfl, .inr ⟨_, rfl⟩⟩
      · cases hloaded
    | reload record k old =>
      rcases hstage with hcounted | ⟨old', hloaded⟩
      · cases hcounted
      · cases hloaded
        exact .inl ⟨_, hself, time, htime, .inr ⟨_, rfl⟩⟩
    | store t k =>
      rcases hstage with hcounted | ⟨old', hloaded⟩
      · cases hcounted
      · cases hloaded
        exact .inr ⟨⟨t, hself, le_rfl⟩, t, hself, le_rfl⟩
    | _ => rcases hstage with hcounted | ⟨old, hloaded⟩ <;> contradiction
  · exact .inl ⟨first, mem_update_of_ne hcall hmem hfirst h stage, time, htime, hstage⟩

theorem Sane.sum_update {i : Nat} {call : Call} (hcall : s.calls[i]? = some call) {h : UpstreamHealth}
    {stage : Stage} (hmove : Moves s.health call h stage) (hs : s.Sane) :
    h.queries = h.successes + h.failures +
      (s.update i call h stage).calls.countP fun call => call.stage = .queried := by
  obtain ⟨hi, hget⟩ := List.getElem?_eq_some_iff.mp hcall
  have hsum := hs.sum
  have hpos : call.stage = .queried → 1 ≤ s.calls.countP fun call => call.stage = .queried := by
    intro hstage
    exact List.countP_pos_iff.mpr ⟨call, List.mem_of_getElem? hcall, decide_eq_true hstage⟩
  change _ = _ + (s.calls.set i { call with stage }).countP fun call => call.stage = .queried
  rw [List.countP_set hi, hget]
  generalize (s.calls.countP fun call => call.stage = .queried) = n at hsum hpos ⊢
  cases hmove <;> simp at hpos ⊢ <;> omega

theorem Sane.update {i : Nat} {call : Call} (hcall : s.calls[i]? = some call) {h : UpstreamHealth} {stage : Stage}
    (hmove : Moves s.health call h stage) (hs : s.Sane) : (s.update i call h stage).Sane where
  sum := hs.sum_update hcall hmove
  none := by
    intro hzero
    have hmem := List.mem_of_getElem? hcall
    have hother : s.health.successes = 0 → (∀ t, call.record = .success t → stage = .start ∨ stage = .queried) →
        ∀ call' ∈ (s.update i call h stage).calls, ∀ t, call'.record = .success t →
          call'.stage = .start ∨ call'.stage = .queried := by
      intro hbefore hstage call' hmem' t ht
      rcases List.mem_or_eq_of_mem_set hmem' with hold | rfl
      · exact (hs.none hbefore).2 call' hold t ht
      · exact hstage t ht
    cases hmove with
    | query record => exact ⟨(hs.none hzero).1, hother hzero fun _ _ => .inr rfl⟩
    | count time => cases hzero
    | fail => exact ⟨(hs.none hzero).1, hother hzero nofun⟩
    | load time k => rcases (hs.none hzero).2 _ hmem time rfl with hstage | hstage <;> cases hstage
    | reload record k old =>
      refine ⟨(hs.none hzero).1, hother hzero fun t ht => ?_⟩
      rcases (hs.none hzero).2 _ hmem t ht with hstage | hstage <;> cases hstage
    | store time k => rcases (hs.none hzero).2 _ hmem time rfl with hstage | hstage <;> cases hstage
  average := by
    intro hpos
    have hkept : s.health.successes ≠ 0 → h.avgResponseTime = s.health.avgResponseTime →
        (s.update i call h stage).FirstPending ∨ (s.update i call h stage).Between h.avgResponseTime := by
      intro hbefore havg
      rcases hs.average hbefore with hpending | hbetween
      · exact hpending.update hcall hmove
      · rw [havg]
        exact .inr (hbetween.update hcall hmove)
    have hself := mem_update_self hcall h stage
    cases hmove with
    | query record => exact hkept hpos rfl
    | count time =>
      by_cases hfirst : s.health.successes = 0
      · exact .inl ⟨_, hself, time, rfl, .inl (congrArg Stage.counted hfirst)⟩
      · exact hkept hfirst rfl
    | fail => exact hkept hpos rfl
    | load time k => exact hkept hpos rfl
    | reload record k old => exact hkept hpos rfl
    | store time k =>
      rcases hs.average hpos with hpending | hbetween
      · exact hpending.update hcall (.store time k)
      · refine .inr ?_
        by_cases hk : k = 0
        · exact ⟨⟨time, hself, by simp [System.update, hk]⟩, time, hself, by simp [System.update, hk]⟩
        · have hmean := (hbetween.update hcall (.store time k)).weightedMean (k := k) hself
          simpa [System.update, hk] using hmean

theorem Sane.step {e : Event} (hs : s.Sane) (hno : NoOverflow s e s') (hstep : machine.step s e = some s') :
    s'.Sane := by
  rcases step_cases hno hstep with ⟨record, rfl⟩ | ⟨i, call, h, stage, hcall, hmove, rfl⟩
  · refine ⟨?_, ?_, ?_⟩
    · rw [List.countP_append]
      exact hs.sum
    · intro hzero
      refine ⟨(hs.none hzero).1, ?_⟩
      intro call hmem t ht
      rcases List.mem_append.mp hmem with hold | hnew
      · exact (hs.none hzero).2 call hold t ht
      · obtain rfl := List.mem_singleton.mp hnew
        exact .inl rfl
    · intro hpos
      rcases hs.average hpos with ⟨call, hmem, hcall⟩ | ⟨⟨t, ht, hlow⟩, t', ht', hhigh⟩
      · exact .inl ⟨call, List.mem_append_left _ hmem, hcall⟩
      · exact .inr ⟨⟨t, List.mem_append_left _ ht, hlow⟩, t', List.mem_append_left _ ht', hhigh⟩
  · exact hs.update hcall hmove

theorem mem_times {t : Nat} : t ∈ s.times ↔ s.Recorded t := by
  rw [times, List.mem_filterMap, Recorded]
  constructor
  · rintro ⟨⟨record, stage⟩, hmem, ht⟩
    cases record with
    | failure => cases ht
    | success time =>
      cases stage with
      | done =>
        cases ht
        exact hmem
      | _ => cases ht
  · intro hmem
    exact ⟨_, hmem, rfl⟩

/-- The counters of a run agree whenever no call is in progress, and the average is between the recorded times. -/
theorem average_between {events : List Event} (hno : machine.Each NoOverflow .new events)
    (hrun : machine.run .new events = some s) (hquiet : s.Quiescent) :
    s.health.queries = s.health.successes + s.health.failures ∧
      (s.times = [] → s.health.avgResponseTime = 0) ∧
      ∀ least greatest, s.times.min? = some least → s.times.max? = some greatest →
        least ≤ s.health.avgResponseTime ∧ s.health.avgResponseTime ≤ greatest := by
  have hs : s.Sane := Machine.run_keeps (fun _ _ _ h hno hstep => h.step hno hstep) sane_new hno hrun
  have hbetween : s.health.successes ≠ 0 → s.Between s.health.avgResponseTime := by
    intro hpos
    refine (hs.average hpos).resolve_left ?_
    rintro ⟨call, hmem, t, -, hcounted | ⟨old, hloaded⟩⟩
    · rw [hquiet call hmem] at hcounted
      cases hcounted
    · rw [hquiet call hmem] at hloaded
      cases hloaded
  refine ⟨?_, ?_, ?_⟩
  · have hzero : (s.calls.countP fun call => call.stage = .queried) = 0 := by
      refine List.countP_eq_zero.mpr fun call hmem => ?_
      rw [hquiet call hmem]
      decide
    rw [hs.sum, hzero, Nat.add_zero]
  · intro hnone
    by_cases hpos : s.health.successes = 0
    · exact (hs.none hpos).1
    · obtain ⟨⟨t, ht, -⟩, -⟩ := hbetween hpos
      rw [← mem_times, hnone] at ht
      cases ht
  · intro least greatest hleast hgreatest
    obtain ⟨hmem, hmin⟩ := List.min?_eq_some_iff.mp hleast
    obtain ⟨-, hmax⟩ := List.max?_eq_some_iff.mp hgreatest
    have hpos : s.health.successes ≠ 0 := by
      intro hzero
      rcases (hs.none hzero).2 _ (mem_times.mp hmem) least rfl with hstage | hstage <;> cases hstage
    obtain ⟨⟨t, ht, hlow⟩, t', ht', hhigh⟩ := hbetween hpos
    exact ⟨(hmin t (mem_times.mpr ht)).trans hlow, hhigh.trans (hmax t' (mem_times.mpr ht'))⟩

theorem step_last {h h' : UpstreamHealth} {call : Call} {stage : Stage} (calls : List Call)
    (hstep : call.step h = some (h', stage)) :
    machine.step ⟨h, calls ++ [call]⟩ (.step calls.length) = some ⟨h', calls ++ [{ call with stage }]⟩ := by
  simp [machine, System.step, update, hstep]

/-- A call that nothing interrupts is `record_success`. -/
theorem recordSuccess_alone (h : UpstreamHealth) (calls : List Call) {elapsed : Nat} (hq : h.queries + 1 < 2 ^ 64)
    (hs : h.successes + 1 < 2 ^ 64) (ht : elapsed * 1000 < 2 ^ 64)
    (hsum : h.avgResponseTime * h.successes + elapsed * 1000 < 2 ^ 64) :
    machine.run ⟨h, calls⟩ (.call (.success (elapsed * 1000)) :: List.replicate 4 (.step calls.length)) =
      some ⟨h.recordSuccess elapsed, calls ++ [⟨.success (elapsed * 1000), .done⟩]⟩ := by
  have hstore : (⟨.success (elapsed * 1000), .loaded h.successes h.avgResponseTime⟩ : Call).step
      { h with queries := h.queries + 1, successes := h.successes + 1 } = some (h.recordSuccess elapsed, .done) := by
    rw [recordSuccess, Call.step]
    dsimp only
    rw [if_pos rfl, newAvg, Nat.mod_eq_of_lt ht, Nat.mod_eq_of_lt hs, Nat.mod_eq_of_lt hsum]
  rw [Machine.run_cons_of_step rfl]
  iterate 4 rw [List.replicate_succ]
  rw [Machine.run_cons_of_step (step_last calls rfl), Machine.run_cons_of_step (step_last calls rfl),
    Machine.run_cons_of_step (step_last calls rfl)]
  dsimp only
  rw [Nat.mod_eq_of_lt hq, Nat.mod_eq_of_lt hs, Machine.run_cons_of_step (step_last calls hstore)]
  rfl

/-- Two calls: the one that found the count zero is overtaken, and sets the average last. -/
def overtaken : List Event :=
  [.call (.success 10), .call (.success 20), .step 0, .step 0, .step 1, .step 1, .step 1, .step 1, .step 0, .step 0]

/-- In between the average is half of the only time recorded; in the end it is the first time. -/
theorem average_between_overtaken :
    (machine.run .new (overtaken.take 8)).map (fun s => (s.health.avgResponseTime, s.times)) = some (10, [20]) ∧
    let s : System := ⟨⟨2, 2, 0, 10⟩, [⟨.success 10, .done⟩, ⟨.success 20, .done⟩]⟩
    machine.run .new overtaken = some s ∧ s.health.queries = s.health.successes + s.health.failures ∧
      (s.times = [] → s.health.avgResponseTime = 0) ∧
      ∀ least greatest, s.times.min? = some least → s.times.max? = some greatest →
        least ≤ s.health.avgResponseTime ∧ s.health.avgResponseTime ≤ greatest :=
  ⟨rfl, rfl, @average_between _ overtaken (by decide +kernel) rfl (by simp [Quiescent])⟩

end System

end UpstreamHealth

end Lazydns
