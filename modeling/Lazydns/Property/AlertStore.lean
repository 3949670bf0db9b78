import Lazydns.Web.AlertEngine

/-!
# A store of no alerts

The loop that makes room for a new alert waits until there are fewer alerts than the maximum. There are never fewer than none, and the maximum is not validated: with a maximum of 0 the first alert is never stored. With every other maximum the store keeps to it, and loses an alert only to a new one.
-/

namespace Lazydns

namespace AlertEngine

/-- The alert would take a new one in. -/
def Aggregates (alert existing : Alert) : Prop := existing.matches alert = true ∧ existing.acknowledged = false

/-- A new alert is counted at the first of the newest ten that takes it in, or it is put in front, for the oldest one if the store is full. -/
inductive Stored (engine : AlertEngine) (alert : Alert) (now : Nat) : AlertEngine → Prop
  | counted (i : Nat) (existing : Alert) (recent : i < 10) (place : engine.alerts[i]? = some existing)
      (aggregates : Aggregates alert existing)
      (first : ∀ j < i, ∀ other, engine.alerts[j]? = some other → ¬Aggregates alert other) :
      Stored engine alert now { engine with alerts := engine.alerts.set i (existing.incrementOccurrence now) }
  | added (new : ∀ other ∈ engine.alerts.take 10, ¬Aggregates alert other)
      (room : engine.alerts.length < engine.config.maxAlerts) :
      Stored engine alert now
        { engine with alerts := alert :: engine.alerts, alertCounter := engine.alertCounter + 1 }
  | replaced (new : ∀ other ∈ engine.alerts.take 10, ¬Aggregates alert other)
      (full : engine.alerts.length = engine.config.maxAlerts) :
      Stored engine alert now
        { engine with alerts := alert :: engine.alerts.dropLast, alertCounter := engine.alertCounter + 1 }

/-- What a call does. Only `clear` takes alerts away otherwise, and it takes all. -/
def Does (engine : AlertEngine) : Call → AlertEngine → Prop
  | .addAlert alert now _, engine' => Stored engine alert now engine'
  | .acknowledge _, engine' | .acknowledgeAll, engine' =>
    engine'.alertCounter = engine.alertCounter ∧
      List.Forall₂ (fun alert alert' => alert' = alert ∨ alert' = { alert with acknowledged := true })
        engine.alerts engine'.alerts
  | .clear, engine' => engine'.alertCounter = engine.alertCounter ∧ engine'.alerts = []

/-- In every state of every run the store keeps to its maximum, a new alert can be stored, and each call does what it should. -/
def Reliable (config : AlertConfig) : Prop :=
  ∀ (calls : List Call) (engine : AlertEngine), machine.run (.new config) calls = some engine →
    engine.alerts.length ≤ config.maxAlerts ∧
    (∀ alert now, ∃ fuel engine', machine.step engine (.addAlert alert now fuel) = some engine') ∧
    ∀ call engine', machine.step engine call = some engine' → Does engine call engine'

variable {engine engine' : AlertEngine} {config : AlertConfig} {alert : Alert} {alerts alerts' : List Alert}
  {now fuel limit maxAlerts : Nat} {alertId : String} {call : Call}

/-! ### The loops -/

theorem aggregate_eq_some (h : aggregate alert now limit alerts = some alerts') :
    ∃ i existing, i < limit ∧ alerts[i]? = some existing ∧ Aggregates alert existing ∧
      (∀ j < i, ∀ other, alerts[j]? = some other → ¬Aggregates alert other) ∧
      alerts' = alerts.set i (existing.incrementOccurrence now) := by
  induction limit generalizing alerts alerts' with
  | zero => cases h
  | succ limit ih =>
    cases alerts with
    | nil => cases h
    | cons existing alerts =>
      rw [aggregate] at h
      by_cases hfits : (existing.matches alert && !existing.acknowledged) = true
      · rw [if_pos hfits] at h
        cases h
        refine ⟨0, existing, Nat.succ_pos _, rfl, by simpa [Aggregates] using hfits, ?_, rfl⟩
        exact fun j hj => absurd hj (Nat.not_lt_zero j)
      · rw [if_neg hfits] at h
        obtain ⟨rest, hrest, rfl⟩ := Option.map_eq_some_iff.mp h
        obtain ⟨i, found, hi, hplace, haggregates, hfirst, rfl⟩ := ih hrest
        refine ⟨i + 1, found, Nat.succ_lt_succ hi, hplace, haggregates, ?_, rfl⟩
        intro j hj other hother
        cases j with
        | zero =>
          cases hother
          simpa [Aggregates] using hfits
        | succ j => exact hfirst j (Nat.lt_of_succ_lt_succ hj) other hother

theorem aggregate_eq_none (h : aggregate alert now limit alerts = none) :
    ∀ other ∈ alerts.take limit, ¬Aggregates alert other := by
  induction limit generalizing alerts with
  | zero => exact fun other hother => absurd hother List.not_mem_nil
  | succ limit ih =>
    cases alerts with
    | nil => exact fun other hother => absurd hother List.not_mem_nil
    | cons existing alerts =>
      rw [aggregate] at h
      split at h
      · cases h
      · rename_i hfits
        rw [List.take_succ_cons, List.forall_mem_cons]
        exact ⟨by simpa [Aggregates] using hfits, ih (Option.map_eq_none_iff.mp h)⟩

theorem evict_eq_some (h : evict maxAlerts fuel alerts = some alerts') :
    alerts'.length < maxAlerts ∧ alerts' = alerts.take (maxAlerts - 1) := by
  induction fuel generalizing alerts with
  | zero => cases h
  | succ fuel ih =>
    rw [evict] at h
    split at h
    · rename_i hfull
      obtain ⟨hlt, heq⟩ := ih h
      refine ⟨hlt, heq.trans ?_⟩
      rw [List.dropLast_eq_take, List.take_take, Nat.min_eq_left (by omega)]
    · rename_i hroom
      cases h
      exact ⟨Nat.lt_of_not_le hroom, (List.take_of_length_le (by omega)).symm⟩

theorem exists_evict (hmax : 1 ≤ maxAlerts) (alerts : List Alert) :
    ∃ alerts', evict maxAlerts (alerts.length + 1) alerts = some alerts' := by
  generalize hlength : alerts.length = length
  induction length generalizing alerts with
  | zero =>
    refine ⟨alerts, ?_⟩
    rw [evict, if_neg (by omega)]
  | succ length ih =>
    rw [evict]
    split
    · exact ih alerts.dropLast (by rw [List.length_dropLast, hlength, Nat.add_sub_cancel])
    · exact ⟨alerts, rfl⟩

theorem evict_zero (fuel : Nat) (alerts : List Alert) : evict 0 fuel alerts = none := by
  induction fuel generalizing alerts with
  | zero => rfl
  | succ fuel ih =>
    rw [evict, if_pos (Nat.zero_le _)]
    exact ih alerts.dropLast

theorem acknowledgeFirst_spec (alertId : String) (alerts : List Alert) :
    List.Forall₂ (fun alert alert' => alert' = alert ∨ alert' = { alert with acknowledged := true }) alerts
      (acknowledgeFirst alertId alerts).1 := by
  induction alerts with
  | nil => exact .nil
  | cons alert alerts ih =>
    rw [acknowledgeFirst]
    split
    · exact .cons (.inr rfl) (List.forall₂_same.mpr fun _ _ => .inl rfl)
    · exact .cons (.inl rfl) ih

/-! ### One call -/

theorem addAlert_eq_some (h : engine.addAlert alert now fuel = some engine')
    (hle : engine.alerts.length ≤ engine.config.maxAlerts) :
    Stored engine alert now engine' := by
  rw [addAlert] at h
  split at h
  · rename_i alerts hsome
    cases h
    obtain ⟨i, existing, hi, hplace, haggregates, hfirst, rfl⟩ := aggregate_eq_some hsome
    exact .counted i existing hi hplace haggregates hfirst
  · rename_i hnone
    have hnew := aggregate_eq_none hnone
    obtain ⟨alerts, hevict, rfl⟩ := Option.map_eq_some_iff.mp h
    obtain ⟨hlt, rfl⟩ := evict_eq_some hevict
    rcases Nat.lt_or_eq_of_le hle with hroom | hfull
    · rw [List.take_of_length_le (by omega)]
      exact .added hnew hroom
    · rw [← hfull, ← List.dropLast_eq_take]
      exact .replaced hnew hfull

theorem Stored.keeps (h : Stored engine alert now engine') (hmax : 1 ≤ engine.config.maxAlerts)
    (hle : engine.alerts.length ≤ engine.config.maxAlerts) :
    engine'.config = engine.config ∧ engine'.alerts.length ≤ engine.config.maxAlerts := by
  cases h with
  | counted i existing hi hplace haggregates hfirst =>
    refine ⟨rfl, ?_⟩
    rw [List.length_set]
    exact hle
  | added hnew hroom => exact ⟨rfl, hroom⟩
  | replaced hnew hfull =>
    refine ⟨rfl, ?_⟩
    rw [List.length_cons, List.length_dropLast]
    omega

theorem does_step (h : machine.step engine call = some engine')
    (hle : engine.alerts.length ≤ engine.config.maxAlerts) :
    Does engine call engine' := by
  cases call with
  | addAlert alert now fuel => exact addAlert_eq_some h hle
  | acknowledge alertId =>
    cases h
    exact ⟨rfl, acknowledgeFirst_spec alertId engine.alerts⟩
  | acknowledgeAll =>
    cases h
    exact ⟨rfl, List.forall₂_map_right_iff.mpr (List.forall₂_same.mpr fun _ _ => .inr rfl)⟩
  | clear =>
    cases h
    exact ⟨rfl, rfl⟩

theorem step_keeps (h : machine.step engine call = some engine') (hmax : 1 ≤ engine.config.maxAlerts)
    (hle : engine.alerts.length ≤ engine.config.maxAlerts) :
    engine'.config = engine.config ∧ engine'.alerts.length ≤ engine.config.maxAlerts := by
  cases call with
  | addAlert alert now fuel => exact (addAlert_eq_some h hle).keeps hmax hle
  | acknowledge alertId =>
    cases h
    exact ⟨rfl, (acknowledgeFirst_spec alertId engine.alerts).length_eq ▸ hle⟩
  | acknowledgeAll =>
    cases h
    exact ⟨rfl, (List.length_map _).trans_le hle⟩
  | clear =>
    cases h
    exact ⟨rfl, Nat.zero_le _⟩

theorem exists_addAlert (hmax : 1 ≤ engine.config.maxAlerts) (alert : Alert) (now : Nat) :
    ∃ fuel engine', engine.addAlert alert now fuel = some engine' := by
  obtain ⟨alerts, hevict⟩ := exists_evict hmax engine.alerts
  refine ⟨engine.alerts.length + 1, ?_⟩
  rw [addAlert, hevict]
  split
  · exact ⟨_, rfl⟩
  · exact ⟨_, rfl⟩

/-- Where nothing may be kept, the first alert is never stored. -/
theorem not_exists_addAlert (hzero : config.maxAlerts = 0) (alert : Alert) (now : Nat) :
    ¬∃ fuel engine', (new config).addAlert alert now fuel = some engine' := by
  rintro ⟨fuel, engine', h⟩
  change ((evict config.maxAlerts fuel []).map _) = _ at h
  rw [hzero, evict_zero] at h
  cases h

/-! ### Whole runs -/

/-- The store does what it should if the configuration lets it keep an alert at all, and only then. -/
theorem reliable_iff (config : AlertConfig) : Reliable config ↔ 1 ≤ config.maxAlerts := by
  constructor
  · intro hreliable
    obtain ⟨-, hstored, -⟩ := hreliable [] (.new config) rfl
    by_contra hzero
    exact not_exists_addAlert (by omega) ⟨"", "", "", 0, 1, false⟩ 0 (hstored _ 0)
  · intro hmax calls engine hrun
    have hkept : engine.config = config ∧ engine.alerts.length ≤ config.maxAlerts := by
      refine Machine.run_invariant (M := machine)
        (I := fun engine => engine.config = config ∧ engine.alerts.length ≤ config.maxAlerts) ?_
        ⟨rfl, Nat.zero_le _⟩ hrun
      rintro engine call engine' ⟨rfl, hle⟩ hstep
      exact step_keeps hstep hmax hle
    obtain ⟨rfl, hle⟩ := hkept
    exact ⟨hle, exists_addAlert hmax, fun call engine' hstep => does_step hstep hle⟩

/-- The validation accepts a maximum of 0. -/
theorem not_reliable_zero : ¬∀ config : WebConfig, config.validate = .ok () → Reliable config.alerts := by
  intro h
  have hreliable := h { WebConfig.default with alerts := ⟨0⟩ } WebConfig.validate_default
  obtain ⟨-, hstored, -⟩ := hreliable [] (.new ⟨0⟩) rfl
  exact not_exists_addAlert rfl ⟨"a", "rate_limit", "Rate limit exceeded", 0, 1, false⟩ 0 (hstored _ 0)

end AlertEngine

end Lazydns
