import Lazydns.Plugin.ReverseTable

/-!
# What a lookup of the reverse table finds

An entry of the table is always what was last saved for its address. That none is missing before it expires depends on the lookups that remove an expired entry: they remove what is under the address by then. So the lookups are right in a run exactly if no lookup removes an entry that is live.
-/

namespace Lazydns

open Dns

namespace ReverseLookupPlugin.Table

variable {s s' : System} {e : Event} {ip : IpAddr} {ttl now t : Nat} {entry : Option (String × Nat)}
  {last : Option Saved}

/-- From now on a lookup of an address finds the name of the record last saved for it, until the record expires, and then nothing. -/
def Exact (s : System) : Prop :=
  ∀ ip t name, s.now ≤ t → ((s.plugin.lookup t ip).1 = some name ↔
    ∃ r, lastSaved s.log ip = some r ∧ r.name = name ∧ t < r.expiresAt s.plugin.ttl)

def Stage.name : Stage → Option String
  | .returned name => name
  | _ => none

/-- A lookup that compares what it has read with the clock answers by the record that had been saved last when it read. -/
def Answered (s : System) (e : Event) (s' : System) : Prop :=
  match e with
  | .check i => ∀ ip entry last stage name, s.calls[i]? = some (.lookup ip (.read entry last)) →
    s'.calls[i]? = some (.lookup ip stage) →
      (stage.name = some name ↔ ∃ r, last = some r ∧ r.name = name ∧ s.now < r.expiresAt s.plugin.ttl)
  | _ => True

/-- A lookup that removes what is under its address finds nothing there, or an entry that has expired. -/
def Spared (s : System) (e : Event) (_ : System) : Prop :=
  match e with
  | .remove i =>
    match s.calls[i]? with
    | some (.lookup ip .removing) => ∀ entry ∈ s.plugin.cache ip, entry.2 ≤ s.now
    | _ => True
  | _ => True

instance (s s' : System) : (e : Event) → Decidable (Spared s e s')
  | .remove i =>
    match h : s.calls[i]? with
    | some (.lookup ip .removing) =>
      decidable_of_iff (∀ entry ∈ s.plugin.cache ip, entry.2 ≤ s.now) (by rw [Spared, h])
    | some (.lookup _ .begun) | some (.lookup _ (.read ..)) | some (.lookup _ (.returned _)) | some (.save ..)
    | some (.cleanup _) | none => isTrue (by rw [Spared, h]; trivial)
  | .elapse _ | .save _ _ | .lookup _ | .cleanup | .insert _ | .read _ | .check _ | .visit _ _ => isTrue trivial

/-! ### One address -/

/-- The entry is of the record last saved. -/
def Current (ttl : Nat) (entry : Option (String × Nat)) (last : Option Saved) : Prop :=
  ∀ e, entry = some e → ∃ r, last = some r ∧ r.entry ttl = e

/-- It is, and if there is none the record has expired. -/
def Matches (ttl now : Nat) (entry : Option (String × Nat)) (last : Option Saved) : Prop :=
  Current ttl entry last ∧ (entry = none → ∀ r, last = some r → r.expiresAt ttl ≤ now)

theorem Matches.mono {now' : Nat} (h : Matches ttl now entry last) (hle : now ≤ now') : Matches ttl now' entry last :=
  ⟨h.1, fun hnone r hr => (h.2 hnone r hr).trans hle⟩

theorem Matches.checked_iff (h : Matches ttl now entry last) (hle : now ≤ t) (name : String) :
    (checked t entry).name = some name ↔ ∃ r, last = some r ∧ r.name = name ∧ t < r.expiresAt ttl := by
  cases entry with
  | none =>
    constructor
    · rintro ⟨⟩
    · rintro ⟨r, hr, -, hlive⟩
      have hexpired := h.2 rfl r hr
      omega
  | some e =>
    obtain ⟨r, rfl, rfl⟩ := h.1 e rfl
    rw [Saved.entry, checked]
    by_cases hlive : t < r.expiresAt ttl
    · rw [if_pos hlive]
      constructor
      · intro hname
        exact ⟨r, rfl, Option.some.inj hname, hlive⟩
      · rintro ⟨r', hr', rfl, -⟩
        rw [Option.some.inj hr']
        rfl
    · rw [if_neg hlive]
      constructor
      · rintro ⟨⟩
      · rintro ⟨r', hr', -, hlive'⟩
        rw [← Option.some.inj hr'] at hlive'
        exact absurd hlive' hlive

theorem lookup_fst (p : ReverseLookupPlugin) (t : Nat) (ip : IpAddr) :
    (p.lookup t ip).1 = (checked t (p.cache ip)).name := by
  rw [lookup]
  cases p.cache ip with
  | none => rfl
  | some entry =>
    dsimp only [checked]
    by_cases hlive : t < entry.2
    · rw [if_pos hlive, if_pos hlive]
      rfl
    · rw [if_neg hlive, if_neg hlive]
      rfl

/-! ### The table -/

theorem saved_cases (now : Nat) (req : Message) (p : ReverseLookupPlugin) (rr : ResourceRecord) (log : List Saved)
    (ip : IpAddr) :
    (∃ r, (p.saveRecord now req rr).cache ip = some (r.entry p.ttl) ∧
      lastSaved ((saved now req rr).toList ++ log) ip = some r) ∨
    (p.saveRecord now req rr).cache ip = p.cache ip ∧
      lastSaved ((saved now req rr).toList ++ log) ip = lastSaved log ip := by
  rw [saveRecord_cache]
  cases hr : saved now req rr with
  | none => exact .inr ⟨rfl, rfl⟩
  | some r =>
    dsimp only [Option.toList_some, List.singleton_append]
    by_cases hip : r.ip = ip
    · refine .inl ⟨r, ?_, ?_⟩
      · rw [← hip, Function.update_self]
      · have hfirst : (fun r : Saved => decide (r.ip = ip)) r = true := decide_eq_true hip
        exact List.find?_cons_of_pos hfirst
    · refine .inr ⟨Function.update_of_ne (Ne.symm hip) .., ?_⟩
      have hother : ¬(fun r : Saved => decide (r.ip = ip)) r = true := by simpa using hip
      exact List.find?_cons_of_neg hother

/-- Every entry of the table is of the record last saved for its address. -/
def TableCurrent (s : System) : Prop := ∀ ip, Current s.plugin.ttl (s.plugin.cache ip) (lastSaved s.log ip)

theorem TableCurrent.removeEntry (h : TableCurrent s) (ip : IpAddr) : TableCurrent (s.removeEntry ip) := by
  intro ip' e he
  by_cases hip : ip' = ip
  · subst hip
    change Function.update s.plugin.cache ip' none ip' = some e at he
    rw [Function.update_self] at he
    cases he
  · change Function.update s.plugin.cache ip none ip' = some e at he
    rw [Function.update_of_ne hip] at he
    exact h ip' e he

theorem TableCurrent.step (h : TableCurrent s) (hstep : machine.step s e = some s') : TableCurrent s' := by
  cases step_cases hstep with
  | @insert i now req rr answers hcall =>
    intro ip
    change Current (s.plugin.saveRecord now req rr).ttl _ _
    rw [saveRecord_ttl]
    rcases saved_cases now req s.plugin rr s.log ip with ⟨r, hentry, hlast⟩ | ⟨hentry, hlast⟩
    · intro e he
      exact ⟨r, hlast, Option.some.inj (hentry.symm.trans he)⟩
    · intro e he
      obtain ⟨r, hr, hre⟩ := h ip e (hentry.symm.trans he)
      exact ⟨r, hlast.trans hr, hre⟩
  | remove hcall => exact h.removeEntry _
  | sweep hcall hentry hexpired => exact h.removeEntry _
  | _ => exact h

/-- What a call relies on. -/
def Call.Sound (ttl now : Nat) : Call → Prop
  | .lookup _ (.read entry last) => Matches ttl now entry last
  | .cleanup began => began ≤ now
  | _ => True

theorem Call.Sound.mono {c : Call} {now' : Nat} (h : c.Sound ttl now) (hle : now ≤ now') : c.Sound ttl now' := by
  cases c with
  | save => trivial
  | cleanup began => exact le_trans h hle
  | lookup ip stage =>
    cases stage with
    | read entry last => exact Matches.mono h hle
    | begun => trivial
    | removing => trivial
    | returned name => trivial

theorem sound_checked (entry : Option (String × Nat)) : (Call.lookup ip (checked t entry)).Sound ttl now := by
  cases entry with
  | none => trivial
  | some e =>
    rw [checked]
    by_cases hlive : t < e.2
    · rw [if_pos hlive]
      trivial
    · rw [if_neg hlive]
      trivial

structure Inv (s : System) : Prop where
  table : ∀ ip, Matches s.plugin.ttl s.now (s.plugin.cache ip) (lastSaved s.log ip)
  calls : ∀ c ∈ s.calls, c.Sound s.plugin.ttl s.now

theorem Inv.call (h : Inv s) {c : Call} (hc : c.Sound s.plugin.ttl s.now) : Inv (s.call c) := by
  refine ⟨h.table, fun c' hc' => ?_⟩
  rcases List.mem_append.mp hc' with hold | hnew
  · exact h.calls c' hold
  · rwa [List.mem_singleton.mp hnew]

theorem Inv.setCall (h : Inv s) (i : Nat) {c : Call} (hc : c.Sound s.plugin.ttl s.now) : Inv (s.setCall i c) := by
  refine ⟨h.table, fun c' hc' => ?_⟩
  rcases List.mem_or_eq_of_mem_set hc' with hold | rfl
  · exact h.calls c' hold
  · exact hc

theorem Inv.removeEntry (h : Inv s) (hexpired : ∀ e ∈ s.plugin.cache ip, e.2 ≤ s.now) : Inv (s.removeEntry ip) := by
  have hcurrent : TableCurrent s := fun ip => (h.table ip).1
  refine ⟨fun ip' => ⟨hcurrent.removeEntry ip ip', fun hnone r hr => ?_⟩, h.calls⟩
  by_cases hold : s.plugin.cache ip' = none
  · exact (h.table ip').2 hold r hr
  · obtain ⟨e, he⟩ := Option.ne_none_iff_exists'.mp hold
    have hip : ip' = ip := by
      by_contra hip
      change Function.update s.plugin.cache ip none ip' = none at hnone
      rw [Function.update_of_ne hip] at hnone
      exact hold hnone
    obtain ⟨r', hr', rfl⟩ := (h.table ip').1 e he
    obtain rfl := Option.some.inj (hr.symm.trans hr')
    exact hexpired _ (hip ▸ he)

theorem Inv.step (h : Inv s) (he : Spared s e s') (hstep : machine.step s e = some s') : Inv s' := by
  cases step_cases hstep with
  | elapse duration =>
    have hle : s.now ≤ s.now + duration := Nat.le_add_right _ _
    exact ⟨fun ip => (h.table ip).mono hle, fun c hc => (h.calls c hc).mono hle⟩
  | save req resp => exact h.call trivial
  | lookup ip => exact h.call trivial
  | cleanup => exact h.call le_rfl
  | @insert i began req rr answers hcall =>
    have hset := h.setCall i (c := .save began req answers) trivial
    refine ⟨fun ip => ?_, ?_⟩
    · change Matches (s.plugin.saveRecord began req rr).ttl _ _ _
      rw [saveRecord_ttl]
      rcases saved_cases began req s.plugin rr s.log ip with ⟨r, hentry, hlast⟩ | ⟨hentry, hlast⟩
      · refine ⟨fun e he => ⟨r, hlast, Option.some.inj (hentry.symm.trans he)⟩, fun hnone => ?_⟩
        rw [hentry] at hnone
        cases hnone
      · change Matches s.plugin.ttl s.now ((s.plugin.saveRecord began req rr).cache ip) (lastSaved (_ ++ s.log) ip)
        rw [hentry, hlast]
        exact h.table ip
    · change ∀ c ∈ s.calls.set i _, c.Sound (s.plugin.saveRecord began req rr).ttl s.now
      rw [saveRecord_ttl]
      exact hset.calls
  | @read i ip hcall => exact h.setCall i (h.table ip)
  | check hcall => exact h.setCall _ (sound_checked _)
  | @remove i ip hcall =>
    rw [Spared, hcall] at he
    exact (h.removeEntry he).setCall i trivial
  | keep i ip => exact h
  | @sweep i began ip entry hcall hentry hexpired =>
    refine h.removeEntry fun e he => ?_
    obtain rfl := Option.some.inj (hentry.symm.trans he)
    have hbegan : began ≤ s.now := h.calls _ (List.mem_of_getElem? hcall)
    exact hexpired.trans hbegan

theorem Inv.exact (h : Inv s) : Exact s := by
  intro ip t name hle
  rw [lookup_fst]
  exact (h.table ip).checked_iff hle name

theorem Inv.answered (h : Inv s) (hstep : machine.step s e = some s') : Answered s e s' := by
  cases step_cases hstep with
  | @check i ip entry last hcall =>
    intro ip' entry' last' stage name hread hstage
    cases hcall.symm.trans hread
    obtain ⟨hi, -⟩ := List.getElem?_eq_some_iff.mp hcall
    cases (List.getElem?_set_self hi).symm.trans hstage
    have hmatches : Matches s.plugin.ttl s.now entry last := h.calls _ (List.mem_of_getElem? hcall)
    exact hmatches.checked_iff le_rfl name
  | _ => trivial

/-- A lookup that removes a live entry makes lookups wrong from then on. -/
theorem spared_of_exact (h : TableCurrent s) (hexact : Exact s') (hstep : machine.step s e = some s') :
    Spared s e s' := by
  cases step_cases hstep with
  | @remove i ip hcall =>
    rw [Spared, hcall]
    intro entry hentry
    obtain ⟨r, hr, rfl⟩ := h ip entry hentry
    by_contra hlive
    have hfound := (hexact ip s.now r.name le_rfl).mpr ⟨r, hr, rfl, not_le.mp hlive⟩
    rw [lookup_fst] at hfound
    change (checked s.now (Function.update s.plugin.cache ip none ip)).name = _ at hfound
    rw [Function.update_self] at hfound
    cases hfound
  | _ => trivial

/-! ### Over a run -/

/-- Lookups are right in a run from an empty table exactly if no lookup of it removes an entry that is live. -/
theorem lookups_iff {events : List Event} (hcache : s.plugin.cache = fun _ => none) (hlog : s.log = [])
    (hcalls : s.calls = []) :
    machine.Each (fun s e s' => Exact s' ∧ Answered s e s') s events ↔ machine.Each Spared s events := by
  have hstart : Inv s := by
    refine ⟨fun ip => ?_, fun c hc => ?_⟩
    · rw [hcache, hlog]
      exact ⟨nofun, nofun⟩
    · rw [hcalls] at hc
      cases hc
  constructor
  · intro hright
    refine Machine.each_of_keeps (I := TableCurrent) (fun s e s' h hright hstep => ?_) (fun ip => (hstart.table ip).1)
      hright
    exact ⟨h.step hstep, spared_of_exact h hright.1 hstep⟩
  · refine Machine.each_of_keeps (fun s e s' h hspared hstep => ?_) hstart
    exact ⟨h.step hspared hstep, (h.step hspared hstep).exact, h.answered hstep⟩

def emptyTable : System := ⟨0, ⟨true, 7200, fun _ => none⟩, [], []⟩

def asked : Message := { Message.new with questions := [⟨"a.example", .A, .IN⟩] }

def answered (ttl : Nat) : Message := { Message.new with answers := [⟨"a.example", .A, .IN, ttl, .A 1⟩] }

def savedAgain : List Event :=
  [.save asked (answered 1), .insert 0, .elapse 1000, .lookup (.v4 1), .read 1, .check 1, .remove 1,
    .save asked (answered 60), .insert 2, .lookup (.v4 1), .read 3, .check 3]

theorem lookups_iff_savedAgain :
    machine.Each (fun s e s' => Exact s' ∧ Answered s e s') emptyTable savedAgain ∧
      (machine.run emptyTable savedAgain).map (fun t => t.calls[3]?) =
        some (some (.lookup (.v4 1) (.returned (some "a.example")))) :=
  ⟨(lookups_iff rfl rfl rfl).mpr (by decide +kernel), by decide +kernel⟩

/-- An entry expires, and is saved again before a lookup that has read it removes what is under the address. -/
def savedBetween : List Event :=
  [.save asked (answered 1), .insert 0, .elapse 1000, .lookup (.v4 1), .read 1, .check 1,
    .save asked (answered 60), .insert 2, .remove 1]

theorem not_exact_savedBetween : ¬∀ (s t : System) (events : List Event), (s.plugin.cache = fun _ => none) →
    s.log = [] → s.calls = [] → machine.run s events = some t → Exact t := by
  intro h
  have hview : (machine.run emptyTable savedBetween).map (fun t => (t.plugin.cache (.v4 1), t.plugin.ttl,
      lastSaved t.log (.v4 1), t.now)) = some (none, 7200, some ⟨.v4 1, "a.example", 1000, 60⟩, 1000) := by
    decide +kernel
  obtain ⟨t, hrun, hview⟩ := Option.map_eq_some_iff.mp hview
  obtain ⟨hentry, httl, hlast, hnow⟩ : _ ∧ _ ∧ _ ∧ _ := by simpa only [Prod.mk.injEq] using hview
  have hfound := (h emptyTable t savedBetween rfl rfl rfl hrun (.v4 1) 1000 "a.example" hnow.le).mpr
    ⟨_, hlast, rfl, by rw [httl]; decide⟩
  rw [lookup_fst, hentry] at hfound
  cases hfound

end ReverseLookupPlugin.Table

end Lazydns
