import Lazydns.Plugin.Dumps

/-!
# A dump is written whole or not at all

Until the rename nothing is done to any file but the temporary one, and when it comes to the rename the temporary file is complete. So wherever a call fails the dump file is as it was, unless the two files are the same. A dump that fails leaves the count of changes and the time of the last dump alone.
-/

namespace Lazydns

open Dns Persistence Bytes

namespace Persistence

/-! ### Call by call -/

/-- The temporary file has come to this content, and the dump file is as it was. If `free`, no call fails any more. -/
structure Writing (tmp path : DumpPath) (old : Option (List UInt8)) (free : Prop) (content : List UInt8) (d : DumpDisk) :
    Prop where
  tmp : d.files tmp = some content
  path : d.files path = old
  faults : free → d.faults = []

/-- Writing was given up: the dump file is as it was, and without faults there is a reason. -/
structure GivenUp (path : DumpPath) (old : Option (List UInt8)) (free reason : Prop) (d : DumpDisk) : Prop where
  path : d.files path = old
  reason : free → reason

variable {tmp path : DumpPath} {old : Option (List UInt8)} {free reason : Prop} {content : List UInt8}

theorem GivenUp.of_fault {d d' : DumpDisk} {n : Nat} {rest : List (Option Nat)} (hfree : free → d.faults = [])
    (hfaults : d.faults = some n :: rest) (hpath : d'.files path = old) : GivenUp path old free reason d' where
  path := hpath
  reason := by
    intro h
    rw [hfree h] at hfaults
    cases hfaults

theorem spec_call {effect : (DumpPath → Option (List UInt8)) → DumpPath → Option (List UInt8)}
    {failed : Nat → (DumpPath → Option (List UInt8)) → DumpPath → Option (List UInt8)} {P Q E : DumpDisk → Prop}
    (hok : ∀ d rest, P d → (d.faults = [] → rest = []) → Q ⟨effect d.files, rest⟩)
    (herror : ∀ d n rest, P d → d.faults = some n :: rest → E ⟨failed n d.files, rest⟩) :
    Fallible.Spec P (DumpDisk.call effect failed) (fun _ => Q) E := by
  rintro ⟨files, faults⟩ hd
  cases faults with
  | nil => exact hok ⟨files, []⟩ [] hd fun _ => rfl
  | cons fault rest =>
    cases fault with
    | none => exact hok ⟨files, none :: rest⟩ rest hd nofun
    | some n => exact herror ⟨files, some n :: rest⟩ n rest hd rfl

theorem spec_createParent :
    Fallible.Spec (fun d => d.files path = old ∧ (free → d.faults = [])) (DumpDisk.createParent path)
      (fun _ d => d.files path = old ∧ (free → d.faults = [])) (GivenUp path old free reason) := by
  rw [DumpDisk.createParent]
  by_cases hparent : path.parent ≠ ""
  · rw [if_pos hparent]
    refine spec_call (fun d rest hd hrest => ?_) (fun d n rest hd hfaults => ?_)
    · exact ⟨hd.1, fun hfree => hrest (hd.2 hfree)⟩
    · exact .of_fault hd.2 hfaults hd.1
  · rw [if_neg hparent]
    exact .pure fun _ hd => hd

theorem spec_create (hne : tmp ≠ path) :
    Fallible.Spec (fun d => d.files path = old ∧ (free → d.faults = [])) (DumpDisk.create tmp)
      (fun _ => Writing tmp path old free []) (GivenUp path old free reason) := by
  refine spec_call (fun d rest hd hrest => ?_) (fun d n rest hd hfaults => ?_)
  · exact ⟨Function.update_self .., (Function.update_of_ne hne.symm ..).trans hd.1, fun hfree => hrest (hd.2 hfree)⟩
  · exact .of_fault hd.2 hfaults hd.1

theorem spec_writeAll (hne : tmp ≠ path) (bytes : List UInt8) :
    Fallible.Spec (Writing tmp path old free content) (DumpDisk.writeAll tmp bytes)
      (fun _ => Writing tmp path old free (content ++ bytes)) (GivenUp path old free reason) := by
  refine spec_call (fun d rest hd hrest => ⟨?_, ?_, fun hfree => hrest (hd.faults hfree)⟩)
    (fun d n rest hd hfaults => ?_)
  · dsimp only
    rw [Function.update_self, hd.tmp, Option.getD_some]
  · exact (Function.update_of_ne hne.symm ..).trans hd.path
  · exact .of_fault hd.faults hfaults ((Function.update_of_ne hne.symm ..).trans hd.path)

theorem spec_flush :
    Fallible.Spec (Writing tmp path old free content) DumpDisk.flush (fun _ => Writing tmp path old free content)
      (GivenUp path old free reason) := by
  refine spec_call (fun d rest hd hrest => ?_) (fun d n rest hd hfaults => ?_)
  · exact ⟨hd.tmp, hd.path, fun hfree => hrest (hd.faults hfree)⟩
  · exact .of_fault hd.faults hfaults hd.path

theorem spec_rename (hne : tmp ≠ path) :
    Fallible.Spec (Writing tmp path old free content) (DumpDisk.rename tmp path)
      (fun _ d => d.files path = some content) (GivenUp path old free reason) := by
  refine spec_call (fun d rest hd _ => ?_) (fun d n rest hd hfaults => ?_)
  · dsimp only
    rw [if_neg hne, Function.update_of_ne hne.symm, Function.update_self, hd.tmp]
  · exact .of_fault hd.faults hfaults hd.path

/-! ### Entry by entry -/

variable {wire : WireCodec}

theorem spec_serialize {m : Message} (hreason : wire.serializeMessage m = none → reason) :
    Fallible.Spec (Writing tmp path old free content) (serialize wire m)
      (fun bytes d => wire.serializeMessage m = some bytes ∧ Writing tmp path old free content d)
      (GivenUp path old free reason) := by
  rw [serialize]
  cases hm : wire.serializeMessage m with
  | none => exact Fallible.Spec.fail fun d hd => ⟨hd.path, fun _ => hreason hm⟩
  | some bytes => exact Fallible.Spec.pure fun d hd => ⟨rfl, hd⟩

theorem spec_writeEntry (hne : tmp ≠ path) (e : String × CacheEntry) (hreason : dumpEntry wire e = none → reason) :
    Fallible.Spec (Writing tmp path old free content) (writeEntry wire tmp e)
      (fun _ d => ∃ block, dumpEntry wire e = some block ∧ Writing tmp path old free (content ++ block) d)
      (GivenUp path old free reason) := by
  rw [writeEntry]
  refine (spec_writeAll hne _).bind fun _ => ?_
  refine (spec_writeAll hne _).bind fun _ => ?_
  refine (spec_writeAll hne _).bind fun _ => ?_
  refine (spec_writeAll hne _).bind fun _ => ?_
  refine (spec_serialize fun hnone => hreason (by rw [dumpEntry, hnone]; rfl)).bind fun msgBytes => ?_
  refine .of_fact fun hbytes => ?_
  refine (spec_writeAll hne _).bind fun _ => ?_
  refine (spec_writeAll hne _).mono (fun _ hd => hd) (fun _ d hd => ?_) fun _ hd => hd
  refine ⟨_, by rw [dumpEntry, hbytes]; rfl, ?_⟩
  simpa [List.append_assoc] using hd

theorem spec_writeEntries (hne : tmp ≠ path) (entries : List (String × CacheEntry))
    (hreason : ∀ e ∈ entries, dumpEntry wire e = none → reason) :
    Fallible.Spec (Writing tmp path old free content) (entries.forM (writeEntry wire tmp))
      (fun _ d => ∃ blocks, entries.mapM (dumpEntry wire) = some blocks ∧
        Writing tmp path old free (content ++ blocks.flatten) d) (GivenUp path old free reason) := by
  have hentry : ∀ done e, e ∈ entries →
      Fallible.Spec (fun d => ∃ blocks, List.mapM (dumpEntry wire) done = some blocks ∧
          Writing tmp path old free (content ++ blocks.flatten) d) (writeEntry wire tmp e)
        (fun _ d => ∃ blocks, List.mapM (dumpEntry wire) (done ++ [e]) = some blocks ∧
          Writing tmp path old free (content ++ blocks.flatten) d) (GivenUp path old free reason) := by
    intro done e he d hd
    obtain ⟨blocks, hblocks, hd⟩ := hd
    refine (spec_writeEntry hne e (hreason e he)).mono (fun _ hd => hd) (fun _ d hd => ?_) (fun _ hd => hd) d hd
    obtain ⟨block, hblock, hd⟩ := hd
    refine ⟨blocks ++ [block], by simp [List.mapM_append, hblocks, hblock], ?_⟩
    rwa [List.flatten_append, List.flatten_singleton, ← List.append_assoc]
  have hloop := Fallible.Spec.forM hentry []
  rw [List.nil_append] at hloop
  refine hloop.mono (fun d hd => ⟨[], rfl, ?_⟩) (fun _ _ hd => hd) fun _ hd => hd
  rwa [List.flatten_nil, List.append_nil]

/-! ### The dump -/

private theorem mapM_eq_none {α β : Type} {f : α → Option β} {l : List α} {a : α} (ha : a ∈ l) (hnone : f a = none) :
    l.mapM f = none := by
  induction l with
  | nil => cases ha
  | cons b l ih =>
    rw [List.mapM_cons]
    rcases List.mem_cons.mp ha with rfl | hrest
    · rw [hnone]
      rfl
    · rw [ih hrest]
      cases f b <;> rfl

/-- A dump succeeds and is the new dump file, or fails and the old one is as it was; without faults it fails only for what cannot be serialized. -/
theorem spec_dumpCacheTo (hne : path.withTmp ≠ path) (entries : List (String × CacheEntry)) :
    Fallible.Spec (fun d => d.files path = old ∧ (free → d.faults = [])) (dumpCacheTo wire path entries)
      (fun _ d => ∃ bytes, dumpCache wire entries = some bytes ∧ d.files path = some bytes)
      (GivenUp path old free (dumpCache wire entries = none)) := by
  have hreason : ∀ e ∈ entries, dumpEntry wire e = none → dumpCache wire entries = none := by
    intro e he hnone
    rw [dumpCache, mapM_eq_none he hnone, Option.map_none]
  rw [dumpCacheTo]
  refine spec_createParent.bind fun _ => ?_
  refine (spec_create hne).bind fun _ => ?_
  refine (spec_writeAll hne _).bind fun _ => ?_
  refine (spec_writeAll hne _).bind fun _ => ?_
  refine (spec_writeEntries hne entries hreason).bind fun _ => ?_
  intro d hd
  obtain ⟨blocks, hblocks, hd⟩ := hd
  refine (spec_flush.bind fun _ => spec_rename hne).mono (fun _ hd => hd) (fun _ d hd => ?_) (fun _ hd => hd) d hd
  refine ⟨_, ?_, hd⟩
  rw [dumpCache, hblocks]
  simp [List.append_assoc]

theorem spec_dump (hne : path.withTmp ≠ path) (entries : List (String × CacheEntry)) :
    Fallible.Spec (fun d => d.files path = old) (dumpCacheTo wire path entries)
      (fun _ d => ∃ bytes, dumpCache wire entries = some bytes ∧ d.files path = some bytes)
      (fun d => d.files path = old) := by
  refine (@spec_dumpCacheTo path old False wire hne entries).mono (fun d hd => ⟨hd, nofun⟩) ?_ ?_
  · exact fun _ d hd => hd
  · exact fun d hd => hd.path

theorem run_writeAll_fault (p : DumpPath) (bytes : List UInt8) (files : DumpPath → Option (List UInt8))
    (rest : List (Option Nat)) : (DumpDisk.writeAll p bytes).run ⟨files, some 0 :: rest⟩ =
      (.error .io, ⟨Function.update files p (some ((files p).getD [] ++ [])), rest⟩) := rfl

/-- Where the two files are the same, a write that fails leaves an empty file. -/
theorem dumpCacheTo_same (hsame : path.withTmp = path) (entries : List (String × CacheEntry)) :
    ∃ faults rest, ∃ files : DumpPath → Option (List UInt8), files path = some [] ∧
      (dumpCacheTo wire path entries).run ⟨fun _ => none, faults⟩ = (.error .io, ⟨files, rest⟩) := by
  let created : DumpPath → Option (List UInt8) := Function.update (fun _ => none) path (some [])
  have hwrite : (DumpDisk.create path >>= fun _ => DumpDisk.writeAll path MAGIC >>= fun _ => do
      DumpDisk.writeAll path (writeLe 4 entries.length)
      entries.forM (writeEntry wire path)
      DumpDisk.flush
      DumpDisk.rename path path).run ⟨fun _ => none, [none, some 0]⟩ =
        (.error .io, ⟨Function.update created path (some ((created path).getD [] ++ [])), []⟩) := by
    have hcreate : (DumpDisk.create path).run ⟨fun _ => none, [none, some 0]⟩ = (.ok (), ⟨created, [some 0]⟩) := rfl
    rw [Fallible.bind_of_ok hcreate]
    exact Fallible.bind_of_error (run_writeAll_fault ..) _
  have hfile : Function.update created path (some ((created path).getD [] ++ [])) path = some [] := by
    simp [created]
  obtain ⟨faults, hparent⟩ : ∃ faults, (DumpDisk.createParent path).run ⟨fun _ => none, faults⟩ =
      (.ok (), ⟨fun _ => none, [none, some 0]⟩) := by
    rw [DumpDisk.createParent]
    by_cases hparent : path.parent ≠ ""
    · rw [if_pos hparent]
      exact ⟨[none, none, some 0], rfl⟩
    · rw [if_neg hparent]
      exact ⟨[none, some 0], rfl⟩
  refine ⟨faults, [], _, hfile, ?_⟩
  rw [dumpCacheTo, hsame, Fallible.bind_of_ok hparent]
  exact hwrite

theorem dumpCache_ne_nil {entries : List (String × CacheEntry)} : dumpCache wire entries ≠ some [] := by
  intro h
  obtain ⟨blocks, -, hnil⟩ := Option.map_eq_some_iff.mp h
  have hlength := congrArg List.length hnil
  simp [MAGIC, ofString] at hlength

theorem count_dumpCache {entries : List (String × CacheEntry)} {bytes : List UInt8}
    (h : dumpCache wire entries = some bytes) : valueLe ((bytes.drop 8).take 4) = entries.length % 2 ^ 32 := by
  obtain ⟨blocks, -, rfl⟩ := Option.map_eq_some_iff.mp h
  have hmagic : MAGIC.length = 8 := by decide +kernel
  rw [← hmagic, List.drop_left, List.take_append_of_le_length (by rw [length_writeLe]),
    List.take_of_length_le (by rw [length_writeLe]), valueLe_writeLe]
  rfl

end Persistence

/-! ### After a failure -/

namespace CacheDumps

variable {cfg : Config} {s s' t : System} {e : Event}

def Dump.afterWrite : Dump → Bool
  | .written => true
  | .reset => true
  | _ => false

/-- No dump writes its file, and the count does not overflow. -/
def Failing (s : System) (e : Event) (s' : System) : Prop :=
  match e with
  | .count _ => s.plugin.changesSinceDump + 1 < 2 ^ 64
  | .write i _ => s'.dumps[i]? ≠ some .written
  | _ => True

theorem getElem?_set_of_getElem? {α : Type} {l : List α} {i : Nat} {a : α} (h : l[i]? = some a) (b : α) :
    (l.set i b)[i]? = some b := by
  obtain ⟨hi, -⟩ := List.getElem?_eq_some_iff.mp h
  exact List.getElem?_set_self hi

/-- A step that writes no dump keeps a dump due. -/
theorem due_step (hdumps : ∀ d ∈ s.dumps, d.afterWrite = false) (hdue : Due cfg s) (hfailing : Failing s e s')
    (hstep : (machine cfg).step s e = some s') : (∀ d ∈ s'.dumps, d.afterWrite = false) ∧ Due cfg s' := by
  have hset : ∀ i d, d.afterWrite = false → ∀ d' ∈ s.dumps.set i d, d'.afterWrite = false := by
    intro i d hd d' hd'
    rcases List.mem_or_eq_of_mem_set hd' with hold | rfl
    · exact hdumps d' hold
    · exact hd
  have hbegun : ∀ d ∈ s.dumps ++ [.begun], d.afterWrite = false := by
    intro d hd
    rcases List.mem_append.mp hd with hold | hnew
    · exact hdumps d hold
    · rw [List.mem_singleton.mp hnew]
      rfl
  cases step_cases hstep with
  | elapse duration =>
    refine ⟨hdumps, hdue.1, hdue.2.imp_right (Or.imp_right fun hold => ?_)⟩
    have htime : unixNow s.now ≤ unixNow (s.now + duration) := Nat.div_le_div_right (Nat.le_add_right _ _)
    exact hold.trans (Nat.sub_le_sub_right htime _)
  | store key entry plugin hchanges =>
    refine ⟨hdumps, ?_⟩
    rw [Due]
    change 0 < plugin.changesSinceDump ∧ (_ ≤ plugin.changesSinceDump ∨ _)
    rw [hchanges]
    exact hdue
  | count hstore =>
    refine ⟨hdumps, ?_⟩
    change Due cfg (s.setChanges _)
    rw [Nat.mod_eq_of_lt hfailing]
    exact ⟨Nat.succ_pos _, hdue.2.imp_left fun hmany => hmany.trans (Nat.le_succ _)⟩
  | access cache => exact ⟨hdumps, hdue⟩
  | idle => exact ⟨hdumps, hdue⟩
  | begin => exact ⟨hbegun, hdue⟩
  | snapshot hdump => exact ⟨hset _ _ rfl, hdue⟩
  | written hdump hrun => exact absurd (getElem?_set_of_getElem? hdump _) hfailing
  | failed hdump hrun => exact ⟨hset _ _ rfl, hdue⟩
  | reset hdump => exact absurd (hdumps _ (List.mem_of_getElem? hdump)) nofun
  | finish hdump => exact absurd (hdumps _ (List.mem_of_getElem? hdump)) nofun

theorem due_run {events : List Event} (hdumps : ∀ d ∈ s.dumps, d.afterWrite = false) (hdue : Due cfg s)
    (hfailing : (machine cfg).Each Failing s events) (hrun : (machine cfg).run s events = some t) : Due cfg t :=
  (Machine.run_keeps (I := fun s => (∀ d ∈ s.dumps, d.afterWrite = false) ∧ Due cfg s)
    (fun _ _ _ h hfailing hstep => due_step h.1 h.2 hfailing hstep) ⟨hdumps, hdue⟩ hfailing hrun).2

/-! ### Dumping a cache -/

/-- Whatever calls fail, the file at the path is the old one or the new dump; a new dump says how many entries it has; and a dump that is due stays due until one is written. -/
structure Safe (cfg : Config) (entries : List (String × CacheEntry)) : Prop where
  whole : ∀ disk : DumpDisk, let disk' := ((dumpCacheTo cfg.wire cfg.path entries).run disk).2
    disk'.files cfg.path = disk.files cfg.path ∨
      ∃ bytes, dumpCache cfg.wire entries = some bytes ∧ disk'.files cfg.path = some bytes
  count : ∀ disk disk' bytes, (dumpCacheTo cfg.wire cfg.path entries).run disk = (.ok (), disk') →
    disk'.files cfg.path = some bytes → Bytes.valueLe ((bytes.drop 8).take 4) = entries.length
  retried : ∀ s events t, (∀ d ∈ s.dumps, d.afterWrite = false) → Due cfg s → (machine cfg).Each Failing s events →
    (machine cfg).run s events = some t → Due cfg t

theorem not_safe_of_same {entries : List (String × CacheEntry)} (hsame : cfg.path.withTmp = cfg.path) :
    ¬Safe cfg entries := by
  intro hsafe
  obtain ⟨faults, rest, files, hfile, hrun⟩ := @dumpCacheTo_same cfg.path cfg.wire hsame entries
  have hwhole := hsafe.whole ⟨fun _ => none, faults⟩
  rw [hrun] at hwhole
  rcases hwhole with hold | ⟨bytes, hbytes, hnew⟩
  · exact absurd (hfile.symm.trans hold) nofun
  · rw [← Option.some.inj (hfile.symm.trans hnew)] at hbytes
    exact dumpCache_ne_nil hbytes

/-- The dump file `cache.tmp`. -/
theorem not_safe_tmp : ¬Safe ⟨⟨fun _ => some [], fun _ => none⟩, ⟨"/var/cache", "cache.tmp"⟩, 600⟩ [] :=
  not_safe_of_same (by decide +kernel)

/-- Dumping is safe exactly if the extension of the dump file is not `tmp`, and the entries, if they can be written at all, are fewer than the count can say. -/
theorem safe_iff {entries : List (String × CacheEntry)} :
    Safe cfg entries ↔
      cfg.path.withTmp ≠ cfg.path ∧ (dumpCache cfg.wire entries = none ∨ entries.length < 2 ^ 32) := by
  constructor
  · intro hsafe
    have hne : cfg.path.withTmp ≠ cfg.path := fun hsame => not_safe_of_same hsame hsafe
    refine ⟨hne, ?_⟩
    cases hbytes : dumpCache cfg.wire entries with
    | none => exact .inl rfl
    | some bytes =>
      have hspec := @spec_dumpCacheTo cfg.path none True cfg.wire hne entries
      cases hrun : (dumpCacheTo cfg.wire cfg.path entries).run ⟨fun _ => none, []⟩ with
      | mk result disk' =>
        cases result with
        | error e =>
          have hgiven := hspec.error ⟨rfl, fun _ => rfl⟩ hrun
          rw [hgiven.reason trivial] at hbytes
          cases hbytes
        | ok a =>
          obtain ⟨bytes', hbytes', hfile⟩ := hspec.ok ⟨rfl, fun _ => rfl⟩ hrun
          have hcount := hsafe.count _ _ _ hrun hfile
          rw [count_dumpCache hbytes'] at hcount
          exact .inr (hcount ▸ Nat.mod_lt _ (by decide))
  · rintro ⟨hne, hcount⟩
    refine ⟨?_, ?_, fun s events t => due_run⟩
    · intro disk
      cases hrun : (dumpCacheTo cfg.wire cfg.path entries).run disk with
      | mk result disk' =>
        cases result with
        | error e => exact .inl ((spec_dump hne entries).error rfl hrun)
        | ok a => exact .inr ((spec_dump hne entries).ok rfl hrun)
    · intro disk disk' bytes hrun hfile
      obtain ⟨bytes', hbytes', hfile'⟩ := (spec_dump hne entries).ok rfl hrun
      obtain rfl := Option.some.inj (hfile.symm.trans hfile')
      rcases hcount with hnone | hlt
      · rw [hnone] at hbytes'
        cases hbytes'
      · rw [count_dumpCache hbytes', Nat.mod_eq_of_lt hlt]

end CacheDumps

end Lazydns
