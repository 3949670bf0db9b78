import Lazydns.Lib.Machine
import Lazydns.Web.WebConfig

/-!
# The alert engine

The store of the recent alerts, the newest first. Each call holds the lock of the store to its end. The clock is read by `increment_occurrence`; what it shows is said by the event. The loop that makes room for a new alert is given fuel.

Of an alert only what the store reads and writes is here. The counts are 64 bits wide in the source and are not bounded here.
-/

namespace Lazydns

structure Alert where
  id : String
  ruleName : String
  message : String
  lastUpdated : Nat
  occurrenceCount : Nat
  acknowledged : Bool
  deriving DecidableEq, Repr

def Alert.incrementOccurrence (alert : Alert) (now : Nat) : Alert :=
  { alert with occurrenceCount := alert.occurrenceCount + 1, lastUpdated := now }

def Alert.matches (alert other : Alert) : Bool := alert.ruleName == other.ruleName && alert.message == other.message

structure AlertEngine where
  config : AlertConfig
  alerts : List Alert
  alertCounter : Nat
  deriving DecidableEq, Repr

namespace AlertEngine

def new (config : AlertConfig) : AlertEngine := ⟨config, [], 0⟩

/-- The loop over the first alerts of the store, with the store that it leaves behind if it finds a match. -/
def aggregate (alert : Alert) (now : Nat) : Nat → List Alert → Option (List Alert)
  | 0, _ => none
  | _ + 1, [] => none
  | limit + 1, existing :: alerts =>
    if existing.matches alert && !existing.acknowledged then some (existing.incrementOccurrence now :: alerts)
    else (aggregate alert now limit alerts).map (existing :: ·)

/-- The loop that removes the oldest alerts. `pop_back` on an empty store does nothing. -/
def evict (maxAlerts : Nat) : Nat → List Alert → Option (List Alert)
  | 0, _ => none
  | fuel + 1, alerts => if maxAlerts ≤ alerts.length then evict maxAlerts fuel alerts.dropLast else some alerts

def addAlert (engine : AlertEngine) (alert : Alert) (now fuel : Nat) : Option AlertEngine :=
  match aggregate alert now 10 engine.alerts with
  | some alerts => some { engine with alerts }
  | none =>
    (evict engine.config.maxAlerts fuel engine.alerts).map fun alerts =>
      { engine with alerts := alert :: alerts, alertCounter := engine.alertCounter + 1 }

/-- The loop of `acknowledge`. -/
def acknowledgeFirst (alertId : String) : List Alert → List Alert × Bool
  | [] => ([], false)
  | alert :: alerts =>
    if alert.id = alertId then ({ alert with acknowledged := true } :: alerts, true)
    else ((alert :: (acknowledgeFirst alertId alerts).1), (acknowledgeFirst alertId alerts).2)

def acknowledge (engine : AlertEngine) (alertId : String) : AlertEngine × Bool :=
  ({ engine with alerts := (acknowledgeFirst alertId engine.alerts).1 }, (acknowledgeFirst alertId engine.alerts).2)

def acknowledgeAll (engine : AlertEngine) : AlertEngine :=
  { engine with alerts := engine.alerts.map fun alert => { alert with acknowledged := true } }

def clear (engine : AlertEngine) : AlertEngine := { engine with alerts := [] }

inductive Call where
  | addAlert (alert : Alert) (now fuel : Nat)
  | acknowledge (alertId : String)
  | acknowledgeAll
  | clear
  deriving DecidableEq, Repr

/-- A call that does not end is no step. -/
def step (engine : AlertEngine) : Call → Option AlertEngine
  | .addAlert alert now fuel => engine.addAlert alert now fuel
  | .acknowledge alertId => some (engine.acknowledge alertId).1
  | .acknowledgeAll => some engine.acknowledgeAll
  | .clear => some engine.clear

def machine : Machine AlertEngine Call := ⟨step⟩

end AlertEngine

end Lazydns
