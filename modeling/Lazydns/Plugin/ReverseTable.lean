import Lazydns.Lib.Machine
import Lazydns.Plugin.Reply

/-!
# The reverse lookup table in concurrent use

A save puts the addresses of a response into the table one by one, all with the time it began at. A lookup reads the entry of its address, compares it with the clock, and removes what is under the address if the entry has expired. A cleanup visits the entries one by one. Every access to the table is a step, and the steps of saves, lookups and cleanups come in any order.

The log of what has been saved, with the newest first, is not in the source: it is for the statements about a run. A lookup keeps what the log had for its address when it read the table.
-/

namespace Lazydns

open Dns

namespace ReverseLookupPlugin

/-- An answer record that has been saved. -/
structure Saved where
  ip : IpAddr
  name : String
  savedAt : Nat
  ttl : Nat
  deriving DecidableEq, Repr

def Saved.expiresAt (ttl : Nat) (r : Saved) : Nat := r.savedAt + min r.ttl ttl * 1000

def Saved.entry (ttl : Nat) (r : Saved) : String × Nat := (r.name, r.expiresAt ttl)

/-- What `save_from_response` saves of a record. -/
def saved (now : Nat) (req : Message) (rr : ResourceRecord) : Option Saved :=
  match rr.rdata with
  | .A addr => some ⟨.v4 addr, savedName req rr, now, rr.ttl⟩
  | .AAAA addr => some ⟨.v6 addr, savedName req rr, now, rr.ttl⟩
  | _ => none

def lastSaved (log : List Saved) (ip : IpAddr) : Option Saved := log.find? (·.ip = ip)

namespace Table

inductive Stage where
  | begun
  | read (entry : Option (String × Nat)) (last : Option Saved)
  | removing
  | returned (name : Option String)
  deriving DecidableEq, Repr

/-- A save with the answers it has yet to put in, a lookup, or a cleanup; saves and cleanups know when they began. -/
inductive Call where
  | save (now : Nat) (req : Message) (answers : List ResourceRecord)
  | lookup (ip : IpAddr) (stage : Stage)
  | cleanup (now : Nat)
  deriving DecidableEq, Repr

structure System where
  now : Nat
  plugin : ReverseLookupPlugin
  log : List Saved
  calls : List Call

inductive Event where
  | elapse (duration : Nat)
  | save (req resp : Message)
  | lookup (ip : IpAddr)
  | cleanup
  | insert (i : Nat)
  | read (i : Nat)
  | check (i : Nat)
  | remove (i : Nat)
  | visit (i : Nat) (ip : IpAddr)

def System.call (s : System) (c : Call) : System := { s with calls := s.calls ++ [c] }

def System.setCall (s : System) (i : Nat) (c : Call) : System := { s with calls := s.calls.set i c }

def System.removeEntry (s : System) (ip : IpAddr) : System :=
  { s with plugin := { s.plugin with cache := Function.update s.plugin.cache ip none } }

/-- What a lookup makes of the entry it has read. -/
def checked (now : Nat) : Option (String × Nat) → Stage
  | none => .returned none
  | some (fqdn, expiresAt) => if now < expiresAt then .returned (some fqdn) else .removing

def step (s : System) : Event → Option System
  | .elapse duration => some { s with now := s.now + duration }
  | .save req resp => some (s.call (.save s.now req resp.answers))
  | .lookup ip => some (s.call (.lookup ip .begun))
  | .cleanup => some (s.call (.cleanup s.now))
  | .insert i =>
    match s.calls[i]? with
    | some (.save now req (rr :: answers)) =>
      some { s.setCall i (.save now req answers) with
        plugin := s.plugin.saveRecord now req rr
        log := (saved now req rr).toList ++ s.log }
    | _ => none
  | .read i =>
    match s.calls[i]? with
    | some (.lookup ip .begun) => some (s.setCall i (.lookup ip (.read (s.plugin.cache ip) (lastSaved s.log ip))))
    | _ => none
  | .check i =>
    match s.calls[i]? with
    | some (.lookup ip (.read entry _)) => some (s.setCall i (.lookup ip (checked s.now entry)))
    | _ => none
  | .remove i =>
    match s.calls[i]? with
    | some (.lookup ip .removing) => some ((s.removeEntry ip).setCall i (.lookup ip (.returned none)))
    | _ => none
  | .visit i ip =>
    match s.calls[i]?, s.plugin.cache ip with
    | some (.cleanup now), some (_, expiresAt) => some (if now < expiresAt then s else s.removeEntry ip)
    | _, _ => none

def machine : Machine System Event := ⟨step⟩

/-! ### What a step does -/

/-- The steps, each with what has to hold for it. -/
inductive Moves (s : System) : Event → System → Prop
  | elapse (duration : Nat) : Moves s (.elapse duration) { s with now := s.now + duration }
  | save (req resp : Message) : Moves s (.save req resp) (s.call (.save s.now req resp.answers))
  | lookup (ip : IpAddr) : Moves s (.lookup ip) (s.call (.lookup ip .begun))
  | cleanup : Moves s .cleanup (s.call (.cleanup s.now))
  | insert {i now : Nat} {req : Message} {rr : ResourceRecord} {answers : List ResourceRecord}
    (hcall : s.calls[i]? = some (.save now req (rr :: answers))) :
    Moves s (.insert i) { s.setCall i (.save now req answers) with
      plugin := s.plugin.saveRecord now req rr, log := (saved now req rr).toList ++ s.log }
  | read {i : Nat} {ip : IpAddr} (hcall : s.calls[i]? = some (.lookup ip .begun)) :
    Moves s (.read i) (s.setCall i (.lookup ip (.read (s.plugin.cache ip) (lastSaved s.log ip))))
  | check {i : Nat} {ip : IpAddr} {entry : Option (String × Nat)} {last : Option Saved}
    (hcall : s.calls[i]? = some (.lookup ip (.read entry last))) :
    Moves s (.check i) (s.setCall i (.lookup ip (checked s.now entry)))
  | remove {i : Nat} {ip : IpAddr} (hcall : s.calls[i]? = some (.lookup ip .removing)) :
    Moves s (.remove i) ((s.removeEntry ip).setCall i (.lookup ip (.returned none)))
  | keep (i : Nat) (ip : IpAddr) : Moves s (.visit i ip) s
  | sweep {i now : Nat} {ip : IpAddr} {entry : String × Nat} (hcall : s.calls[i]? = some (.cleanup now))
    (hentry : s.plugin.cache ip = some entry) (hexpired : entry.2 ≤ now) : Moves s (.visit i ip) (s.removeEntry ip)

theorem step_cases {s s' : System} {e : Event} (hstep : machine.step s e = some s') : Moves s e s' := by
  cases e with
  | elapse duration =>
    cases hstep
    exact .elapse duration
  | save req resp =>
    cases hstep
    exact .save req resp
  | lookup ip =>
    cases hstep
    exact .lookup ip
  | cleanup =>
    cases hstep
    exact .cleanup
  | insert i =>
    simp only [machine, step] at hstep
    split at hstep
    · rename_i hcall
      cases hstep
      exact .insert hcall
    · cases hstep
  | read i =>
    simp only [machine, step] at hstep
    split at hstep
    · rename_i hcall
      cases hstep
      exact .read hcall
    · cases hstep
  | check i =>
    simp only [machine, step] at hstep
    split at hstep
    · rename_i hcall
      cases hstep
      exact .check hcall
    · cases hstep
  | remove i =>
    simp only [machine, step] at hstep
    split at hstep
    · rename_i hcall
      cases hstep
      exact .remove hcall
    · cases hstep
  | visit i ip =>
    simp only [machine, step] at hstep
    split at hstep
    · rename_i now fqdn expiresAt hcall hentry
      cases hstep
      by_cases hlive : now < expiresAt
      · rw [if_pos hlive]
        exact .keep i ip
      · rw [if_neg hlive]
        exact .sweep hcall hentry (not_lt.mp hlive)
    · cases hstep

/-! ### One at a time -/

theorem saveRecord_ttl (now : Nat) (req : Message) (p : ReverseLookupPlugin) (rr : ResourceRecord) :
    (p.saveRecord now req rr).ttl = p.ttl := by
  rw [saveRecord]
  split <;> rfl

theorem saveRecord_cache (now : Nat) (req : Message) (p : ReverseLookupPlugin) (rr : ResourceRecord) :
    (p.saveRecord now req rr).cache =
      match saved now req rr with
      | some r => Function.update p.cache r.ip (some (r.entry p.ttl))
      | none => p.cache := by
  rw [saveRecord, saved]
  cases rr.rdata <;> rfl

theorem getElem?_concat_set (calls : List Call) (c c' : Call) :
    (calls ++ [c])[calls.length]? = some c ∧ (calls ++ [c]).set calls.length c' = calls ++ [c'] := by
  simp

theorem run_insert {now : Nat} {req : Message} (answers : List ResourceRecord) :
    ∀ {s : System} (calls : List Call), s.calls = calls ++ [.save now req answers] →
      ∃ t, machine.run s (List.replicate answers.length (.insert calls.length)) = some t ∧
        t.plugin = answers.foldl (saveRecord now req) s.plugin := by
  induction answers with
  | nil => exact fun {s} _ _ => ⟨s, rfl, rfl⟩
  | cons rr answers ih =>
    intro s calls hcalls
    obtain ⟨hget, hset⟩ := getElem?_concat_set calls (.save now req (rr :: answers)) (.save now req answers)
    rw [← hcalls] at hget hset
    have hstep : machine.step s (.insert calls.length) = some
        { s.setCall calls.length (.save now req answers) with
          plugin := s.plugin.saveRecord now req rr, log := (saved now req rr).toList ++ s.log } := by
      simp only [machine, step, hget]
    obtain ⟨t, hrun, hplugin⟩ := @ih { s.setCall calls.length (.save now req answers) with
      plugin := s.plugin.saveRecord now req rr, log := (saved now req rr).toList ++ s.log } calls hset
    exact ⟨t, (Machine.run_cons_of_step hstep _).trans hrun, hplugin⟩

/-- A save that nothing interrupts is `save_ips_after`. -/
theorem save_alone (s : System) (req resp : Message) :
    ∃ events t, machine.run s events = some t ∧ t.plugin = s.plugin.saveIpsAfter s.now req resp := by
  obtain ⟨t, hrun, hplugin⟩ := run_insert resp.answers s.calls
    (rfl : (s.call (.save s.now req resp.answers)).calls = s.calls ++ [.save s.now req resp.answers])
  exact ⟨_, t, (Machine.run_cons_of_step (rfl : machine.step s (.save req resp) = _) _).trans hrun, hplugin⟩

/-- A lookup that nothing interrupts is `lookup`. -/
theorem lookup_alone (s : System) (ip : IpAddr) : ∃ events t, machine.run s events = some t ∧
    t.plugin = (s.plugin.lookup s.now ip).2 ∧
    t.calls = s.calls ++ [.lookup ip (.returned (s.plugin.lookup s.now ip).1)] := by
  have hread : machine.run s [.lookup ip, .read s.calls.length] = some
      (s.call (.lookup ip (.read (s.plugin.cache ip) (lastSaved s.log ip)))) := by
    rw [Machine.run_cons_of_step (rfl : machine.step s (.lookup ip) = _)]
    refine Machine.run_cons_of_step ?_ []
    simp [machine, step, System.call, System.setCall]
  have hcheck : machine.run (s.call (.lookup ip (.read (s.plugin.cache ip) (lastSaved s.log ip))))
      [.check s.calls.length] = some (s.call (.lookup ip (checked s.now (s.plugin.cache ip)))) := by
    refine Machine.run_cons_of_step ?_ []
    simp [machine, step, System.call, System.setCall]
  rw [lookup]
  cases hentry : s.plugin.cache ip with
  | none =>
    rw [hentry] at hread hcheck
    exact ⟨_, _, (Machine.run_append_of_run hread _).trans hcheck, rfl, rfl⟩
  | some entry =>
    obtain ⟨fqdn, expiresAt⟩ := entry
    rw [hentry] at hread hcheck
    dsimp only
    by_cases hlive : s.now < expiresAt
    · rw [checked, if_pos hlive] at hcheck
      rw [if_pos hlive]
      exact ⟨_, _, (Machine.run_append_of_run hread _).trans hcheck, rfl, rfl⟩
    · rw [checked, if_neg hlive] at hcheck
      rw [if_neg hlive]
      have hremove : machine.run (s.call (.lookup ip .removing)) [.remove s.calls.length] =
          some ((s.removeEntry ip).call (.lookup ip (.returned none))) := by
        refine Machine.run_cons_of_step ?_ []
        simp [machine, step, System.call, System.setCall, System.removeEntry]
      exact ⟨_, _, (Machine.run_append_of_run hread _).trans ((Machine.run_append_of_run hcheck _).trans hremove),
        rfl, rfl⟩

end Table

end ReverseLookupPlugin

end Lazydns
