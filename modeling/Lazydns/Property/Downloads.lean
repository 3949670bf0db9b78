import Lazydns.Plugin.Downloader

/-!
# A path has a whole file

Two downloads with one temporary path write into one file, and the first of them that is done renames what the other has begun. And a download whose temporary path is the path of another empties that file and fills it bit by bit. While each temporary file belongs to one download from its making to its renaming, and has no path that is configured, a path has the file it had or the whole body of a download.
-/

namespace Lazydns

namespace DownloaderPlugin

variable {Name : Type} (locate : String → Name) (plugins : List DownloaderPlugin)

/-- The name of a path that a plugin has in its files. -/
def Configured (name : Name) : Prop := ∃ p ∈ plugins, ∃ spec ∈ p.files, locate spec.path = name

/-- A path has its content from before or the body of a download that has succeeded. -/
def Replaced (before : FileStore Name) (s : System Name) : Prop :=
  ∀ p ∈ plugins, ∀ spec ∈ p.files, s.disk.content (locate spec.path) = before.content (locate spec.path) ∨
    ∃ d ∈ s.log, locate d.1.path = locate spec.path ∧ d.2 ≠ [] ∧ s.disk.content (locate spec.path) = some d.2

/-- From the making of the temporary file to its renaming. -/
def Phase.Holds : Phase → Prop
  | .writing _ _ _ | .renaming _ => True
  | _ => False

instance : DecidablePred Phase.Holds
  | .writing _ _ _ | .renaming _ => isTrue trivial
  | .requesting | .opening _ | .removing _ | .waiting | .ended _ => isFalse id

def Worker.temp (w : Worker) : Name := locate w.spec.tempPath

def Action.creates : Action → Option Nat
  | .work i .create => some i
  | _ => none

/-- A download makes its temporary file where no other has one, and not at a path that is configured. -/
def Alone (s : System Name) (a : Action) (_ : System Name) : Prop :=
  ∀ i ∈ a.creates, ∀ w ∈ s.workers[i]?, ¬Configured locate plugins (w.temp locate) ∧
    ∀ v ∈ s.workers, v.phase.Holds → v.temp locate ≠ w.temp locate

variable {locate plugins}

/-! ### Invariants -/

/-- The phases in which there is no body. -/
def Phase.Idle : Phase → Prop
  | .requesting | .waiting | .ended _ => True
  | _ => False

/-- What a worker relies on: the file it writes into has what it has written and no other name, and the file it renames has the body, if it is still there. -/
def Worker.Relies (locate : String → Name) (d : FileStore Name) (w : Worker) : Prop :=
  match w.phase with
  | .opening content => content ≠ []
  | .writing content file written =>
    content ≠ [] ∧ file < d.next ∧ written ≤ content.length ∧ d.data file = content.take written ∧
      (∀ name, d.dir name = some file → name = w.temp locate) ∧
      ∀ file', d.dir (w.temp locate) = some file' → file' = file
  | .renaming content => content ≠ [] ∧ ∀ file, d.dir (w.temp locate) = some file → d.data file = content
  | _ => True

variable {d d' : FileStore Name} {w w' : Worker}

theorem relies_of_idle (h : w.phase.Idle) : w.Relies locate d := by
  rw [Worker.Relies]
  cases hphase : w.phase <;> rw [hphase] at h <;> trivial

/-- What a step of another worker does to the disk as far as a worker relies on it. -/
structure Spares (locate : String → Name) (d d' : FileStore Name) (w : Worker) : Prop where
  next : d.next ≤ d'.next
  data : ∀ content file written, w.phase = .writing content file written → d'.data file = d.data file
  dir : ∀ content file written, w.phase = .writing content file written → ∀ name, d'.dir name = some file → d.dir name = some file
  temp : ∀ file, d'.dir (w.temp locate) = some file → d.dir (w.temp locate) = some file ∧ d'.data file = d.data file

theorem Spares.refl : Spares locate d d w :=
  ⟨Nat.le_refl _, fun _ _ _ _ => rfl, fun _ _ _ _ _ => id, fun _ h => ⟨h, rfl⟩⟩

theorem Worker.Relies.spared (h : w.Relies locate d) (hspares : w.phase.Holds → Spares locate d d' w) : w.Relies locate d' := by
  rw [Worker.Relies] at h ⊢
  split at h
  · exact h
  · rename_i content file written hphase
    obtain ⟨hnonempty, hlt, hle, hdata, hname, htemp⟩ := h
    have hspares := hspares (by rw [hphase]; trivial)
    refine ⟨hnonempty, Nat.lt_of_lt_of_le hlt hspares.next, hle, ?_, fun name hdir => ?_, fun file' hdir => ?_⟩
    · rw [hspares.data content file written hphase, hdata]
    · exact hname name (hspares.dir content file written hphase name hdir)
    · exact htemp file' (hspares.temp file' hdir).1
  · rename_i content hphase
    have hspares := hspares (by rw [hphase]; trivial)
    refine ⟨h.1, fun file hdir => ?_⟩
    obtain ⟨hold, hdata⟩ := hspares.temp file hdir
    rw [hdata, h.2 file hold]
  · trivial

variable {n m : Name} {v : Worker}

/-- A file that is opened for a name is not one that another worker writes into. -/
theorem Worker.Relies.ne_handle (hv : v.Relies locate d) (hne : v.temp locate ≠ n) {content : Body} {file written : Nat}
    (hphase : v.phase = .writing content file written) : file ≠ d.handle n := by
  rw [Worker.Relies, hphase] at hv
  obtain ⟨-, hlt, -, -, hname, -⟩ := hv
  intro heq
  rw [FileStore.handle] at heq
  cases hdir : d.dir n with
  | some file' =>
    rw [hdir, Option.getD_some] at heq
    exact hne (hname n (heq ▸ hdir)).symm
  | none =>
    rw [hdir, Option.getD_none] at heq
    exact Nat.lt_irrefl _ (heq ▸ hlt)

theorem spares_write {file pos : Nat} {bytes : Body} (hname : ∀ name, d.dir name = some file → name = n)
    (hne : v.temp locate ≠ n)
    (hapart : ∀ content file' written, v.phase = .writing content file' written → file' ≠ file) :
    Spares locate d (d.write file pos bytes) v := by
  refine ⟨Nat.le_refl _, fun content file' written hphase => ?_, fun _ _ _ _ _ => id, fun file' htemp => ⟨htemp, ?_⟩⟩
  · exact Function.update_of_ne (hapart content file' written hphase) _ _
  · refine Function.update_of_ne ?_ _ _
    rintro rfl
    exact hne (hname _ htemp)

theorem relies_write {content : Body} {file written count : Nat} (h : w.Relies locate d)
    (hphase : w.phase = .writing content file written) (hle : written + count ≤ content.length) :
    Worker.Relies locate (d.write file written ((content.drop written).take count))
      { w with phase := .writing content file (written + count) } := by
  rw [Worker.Relies, hphase] at h
  obtain ⟨hnonempty, hlt, hwritten, hdata, hname, htemp⟩ := h
  refine ⟨hnonempty, hlt, hle, ?_, hname, htemp⟩
  change Function.update _ _ _ _ = _
  rw [Function.update_self, hdata, FileStore.overwrite_append (List.length_take_of_le hwritten), List.take_add]

theorem relies_close {content : Body} {file : Nat} (h : w.Relies locate d)
    (hphase : w.phase = .writing content file content.length) : Worker.Relies locate d { w with phase := .renaming content } := by
  rw [Worker.Relies, hphase] at h
  obtain ⟨hnonempty, -, -, hdata, -, htemp⟩ := h
  refine ⟨hnonempty, fun file' hdir => ?_⟩
  rw [htemp file' hdir, hdata, List.take_length]

def Phase.Temporary : Phase → Prop
  | .writing _ _ _ | .renaming _ | .removing _ => True
  | _ => False

theorem Phase.Idle.not_temporary {phase : Phase} (h : phase.Idle) : ¬phase.Temporary := by
  cases phase <;> first | exact id | exact h.elim

theorem Phase.Holds.temporary {phase : Phase} (h : phase.Holds) : phase.Temporary := by
  cases phase <;> trivial

def Listed (plugins : List DownloaderPlugin) (spec : FileDownloadSpec) : Prop := ∃ p ∈ plugins, spec ∈ p.files

structure Inv (locate : String → Name) (plugins : List DownloaderPlugin) (before : FileStore Name) (s : System Name) : Prop where
  replaced : Replaced locate plugins before s
  listed : ∀ (i : Nat) (w : Worker), s.workers[i]? = some w → Listed plugins w.spec ∧ ∀ spec ∈ w.queue, Listed plugins spec
  relies : ∀ (i : Nat) (w : Worker), s.workers[i]? = some w → w.Relies locate s.disk
  outside : ∀ (i : Nat) (w : Worker), s.workers[i]? = some w → w.phase.Temporary → ¬Configured locate plugins (w.temp locate)
  alone : ∀ (i j : Nat) (w v : Worker), s.workers[i]? = some w → s.workers[j]? = some v → w.phase.Holds → v.phase.Holds →
    w.temp locate = v.temp locate → i = j
  apart : ∀ (i j : Nat) (w v : Worker), s.workers[i]? = some w → s.workers[j]? = some v → i ≠ j →
    ∀ content content' file file' written written', w.phase = .writing content file written →
      v.phase = .writing content' file' written' → file ≠ file'

variable {before : FileStore Name} {s s' : System Name} {i : Nat}

theorem inv_start : Inv locate plugins before ⟨before, [], []⟩ := by
  have hnone : ∀ {i : Nat} {w : Worker}, ([] : List Worker)[i]? ≠ some w := by
    rintro i w ⟨⟩
  exact ⟨fun _ _ _ _ => .inl rfl, fun i w hi => absurd hi hnone, fun i w hi => absurd hi hnone,
    fun i w hi => absurd hi hnone, fun i j w v hi => absurd hi hnone, fun i j w v hi => absurd hi hnone⟩

theorem Inv.set (h : Inv locate plugins before s) (hi : s.workers[i]? = some w) (hworkers : s'.workers = s.workers.set i w')
    (hreplaced : Replaced locate plugins before s')
    (hlisted : Listed plugins w'.spec ∧ ∀ spec ∈ w'.queue, Listed plugins spec)
    (hrelies : w'.Relies locate s'.disk)
    (houtside : w'.phase.Temporary → ¬Configured locate plugins (w'.temp locate))
    (halone : w'.phase.Holds → ∀ (j : Nat) (v : Worker), j ≠ i → s.workers[j]? = some v → v.phase.Holds →
      v.temp locate ≠ w'.temp locate)
    (hapart : ∀ content file written, w'.phase = .writing content file written → ∀ (j : Nat) (v : Worker), j ≠ i →
      s.workers[j]? = some v → ∀ content' file' written', v.phase = .writing content' file' written' → file' ≠ file)
    (hspares : ∀ (j : Nat) (v : Worker), j ≠ i → s.workers[j]? = some v → v.phase.Holds → Spares locate s.disk s'.disk v) :
    Inv locate plugins before s' := by
  have hplace : ∀ {j : Nat} {v : Worker}, s'.workers[j]? = some v → j = i ∧ v = w' ∨ j ≠ i ∧ s.workers[j]? = some v := by
    intro j v hv
    rw [hworkers] at hv
    exact (Slots.getElem?_set_iff hi).mp hv
  refine ⟨hreplaced, fun j v hv => ?_, fun j v hv => ?_, fun j v hv => ?_, fun j k v u hv hu hholds hholds' htemp => ?_,
    fun j k v u hv hu hne content content' file file' written written' hphase hphase' => ?_⟩
  · rcases hplace hv with ⟨-, rfl⟩ | ⟨-, hv⟩
    · exact hlisted
    · exact h.listed j v hv
  · rcases hplace hv with ⟨-, rfl⟩ | ⟨hj, hv⟩
    · exact hrelies
    · exact (h.relies j v hv).spared (hspares j v hj hv)
  · rcases hplace hv with ⟨-, rfl⟩ | ⟨-, hv⟩
    · exact houtside
    · exact h.outside j v hv
  · rcases hplace hv with ⟨rfl, rfl⟩ | ⟨hj, hv⟩ <;> rcases hplace hu with ⟨rfl, rfl⟩ | ⟨hk, hu⟩
    · rfl
    · exact absurd htemp.symm (halone hholds k u hk hu hholds')
    · exact absurd htemp (halone hholds' j v hj hv hholds)
    · exact h.alone j k v u hv hu hholds hholds' htemp
  · rcases hplace hv with ⟨rfl, rfl⟩ | ⟨hj, hv⟩ <;> rcases hplace hu with ⟨rfl, rfl⟩ | ⟨hk, hu⟩
    · exact absurd rfl hne
    · exact (hapart content file written hphase k u hk hu content' file' written' hphase').symm
    · exact hapart content' file' written' hphase' j v hj hv content file written hphase
    · exact h.apart j k v u hv hu hne content content' file file' written written' hphase hphase'

theorem Inv.rest (h : Inv locate plugins before s) (hi : s.workers[i]? = some w) (hworkers : s'.workers = s.workers.set i w')
    (hreplaced : Replaced locate plugins before s')
    (hlisted : Listed plugins w'.spec ∧ ∀ spec ∈ w'.queue, Listed plugins spec)
    (hrelies : w'.Relies locate s'.disk) (htemporary : ¬w'.phase.Temporary)
    (hspares : ∀ (j : Nat) (v : Worker), j ≠ i → s.workers[j]? = some v → v.phase.Holds → Spares locate s.disk s'.disk v) :
    Inv locate plugins before s' := by
  refine h.set hi hworkers hreplaced hlisted hrelies (fun htemp => absurd htemp htemporary)
    (fun hholds => absurd hholds.temporary htemporary) (fun content file written hphase => ?_) hspares
  rw [hphase] at htemporary
  exact absurd trivial htemporary

theorem Replaced.mono (h : Replaced locate plugins before s)
    (hcontent : ∀ name, Configured locate plugins name → s'.disk.content name = s.disk.content name)
    (hlog : ∀ d ∈ s.log, d ∈ s'.log) : Replaced locate plugins before s' := by
  intro p hp spec hspec
  rw [hcontent _ ⟨p, hp, spec, hspec, rfl⟩]
  rcases h p hp spec hspec with hold | ⟨d, hd, hpath, hnonempty, hcontent⟩
  · exact .inl hold
  · exact .inr ⟨d, hlog d hd, hpath, hnonempty, hcontent⟩

theorem mem_workers {p : DownloaderPlugin} (h : w ∈ p.workers) :
    w.phase = .requesting ∧ w.spec ∈ p.files ∧ ∀ spec ∈ w.queue, spec ∈ p.files := by
  rw [workers] at h
  split at h
  · obtain ⟨spec, hspec, rfl⟩ := List.mem_map.mp h
    exact ⟨rfl, hspec, nofun⟩
  · split at h
    · cases h
    · rename_i spec queue hfiles
      rw [List.mem_singleton.mp h, hfiles]
      exact ⟨rfl, List.mem_cons_self, fun _ => List.mem_cons_of_mem _⟩

theorem Inv.start {p : DownloaderPlugin} (h : Inv locate plugins before s) (hp : p ∈ plugins) :
    Inv locate plugins before { s with workers := s.workers ++ p.workers } := by
  have hplace : ∀ {j : Nat} {v : Worker}, (s.workers ++ p.workers)[j]? = some v → s.workers[j]? = some v ∨ v ∈ p.workers := by
    intro j v hv
    rw [List.getElem?_append] at hv
    split at hv
    · exact .inl hv
    · exact .inr (List.mem_of_getElem? hv)
  have hold : ∀ {j : Nat} {v : Worker}, (s.workers ++ p.workers)[j]? = some v → v.phase ≠ .requesting → s.workers[j]? = some v := by
    intro j v hv hphase
    exact (hplace hv).resolve_right fun hnew => hphase (mem_workers hnew).1
  refine ⟨h.replaced, fun j v hv => ?_, fun j v hv => ?_, fun j v hv htemp => ?_, fun j k v u hv hu hholds hholds' => ?_,
    fun j k v u hv hu hne content content' file file' written written' hphase hphase' => ?_⟩
  · rcases hplace hv with hv | hnew
    · exact h.listed j v hv
    · obtain ⟨-, hspec, hqueue⟩ := mem_workers hnew
      exact ⟨⟨p, hp, hspec⟩, fun spec hmem => ⟨p, hp, hqueue spec hmem⟩⟩
  · rcases hplace hv with hv | hnew
    · exact h.relies j v hv
    · exact relies_of_idle (by rw [(mem_workers hnew).1]; trivial)
  · exact h.outside j v (hold hv fun heq => (heq ▸ htemp : Phase.requesting.Temporary).elim) htemp
  · exact h.alone j k v u (hold hv fun heq => (heq ▸ hholds : Phase.requesting.Holds).elim)
      (hold hu fun heq => (heq ▸ hholds' : Phase.requesting.Holds).elim) hholds hholds'
  · exact h.apart j k v u (hold hv (hphase ▸ nofun)) (hold hu (hphase' ▸ nofun)) hne _ _ _ _ _ _ hphase hphase'

/-! ### Steps -/

/-- What a step does to the worker and the disk. -/
inductive Does [DecidableEq Name] (locate : String → Name) (d : FileStore Name) (w : Worker) :
    Op → Worker → FileStore Name → Option Body → Prop
  | idle {op : Op} (attempt : Nat) (phase : Phase) (idle : phase.Idle) : Does locate d w op { w with attempt, phase } d none
  | obtain {op : Op} (content : Body) (nonempty : content ≠ []) : Does locate d w op { w with phase := .opening content } d none
  | create (content : Body) (phase : w.phase = .opening content) :
      Does locate d w .create { w with phase := .writing content (d.handle (w.temp locate)) 0 } (d.create (w.temp locate)) none
  | write {op : Op} (content : Body) (file written count : Nat) (phase : w.phase = .writing content file written)
      (le : written + count ≤ content.length) :
      Does locate d w op { w with phase := .writing content file (written + count) }
        (d.write file written ((content.drop written).take count)) none
  | close {op : Op} (content : Body) (file : Nat) (phase : w.phase = .writing content file content.length) :
      Does locate d w op { w with phase := .renaming content } d none
  | rename {op : Op} (content : Body) (file : Nat) (phase : w.phase = .renaming content) (found : d.dir (w.temp locate) = some file) :
      Does locate d w op w.succeed (d.rename (w.temp locate) (locate w.spec.path)) (some content)
  | refuse {op : Op} (e : String) (content : Body) (phase : w.phase = .renaming content) :
      Does locate d w op { w with phase := .removing e } d none
  | remove {op : Op} (e : String) (attempt : Nat) (phase : Phase) (removing : w.phase = .removing e) (idle : phase.Idle) :
      Does locate d w op { w with attempt, phase } (d.remove (w.temp locate)) none

theorem fail_idle (w : Worker) (e : String) : ∃ phase : Phase, phase.Idle ∧ w.fail e = { w with phase } := by
  refine ⟨_, ?_, rfl⟩
  split <;> trivial

theorem succeed_idle (w : Worker) : w.succeed.phase.Idle := by
  rw [Worker.succeed]
  split <;> trivial

theorem listed_succeed (h : Listed plugins w.spec ∧ ∀ spec ∈ w.queue, Listed plugins spec) :
    Listed plugins w.succeed.spec ∧ ∀ spec ∈ w.succeed.queue, Listed plugins spec := by
  rw [Worker.succeed]
  split
  · exact h
  · rename_i spec queue hqueue
    rw [hqueue] at h
    exact List.forall_mem_cons.mp h.2

variable [DecidableEq Name] {op : Op} {content : Option Body}

instance (name : Name) : Decidable (Configured locate plugins name) :=
  inferInstanceAs (Decidable (∃ p ∈ plugins, ∃ spec ∈ p.files, locate spec.path = name))

instance (s : System Name) (a : Action) (s' : System Name) : Decidable (Alone locate plugins s a s') :=
  inferInstanceAs (Decidable (∀ i ∈ a.creates, ∀ w ∈ s.workers[i]?, ¬Configured locate plugins (w.temp locate) ∧
    ∀ v ∈ s.workers, v.phase.Holds → v.temp locate ≠ w.temp locate))

theorem does_fail (e : String) : Does locate d w op (w.fail e) d none := by
  obtain ⟨phase, hidle, heq⟩ := fail_idle w e
  rw [heq]
  exact .idle w.attempt phase hidle

theorem step_does (h : w.step locate d op = some (w', d', content)) : Does locate d w op w' d' content := by
  cases op with
  | respond outcome =>
    simp only [Worker.step] at h
    split at h
    · cases h
      rcases outcome with e | status | e | ⟨_ | ⟨byte, bytes⟩⟩
      · exact does_fail _
      · exact does_fail _
      · exact does_fail _
      · exact does_fail _
      · exact .obtain _ nofun
    · cases h
  | create =>
    simp only [Worker.step] at h
    split at h
    · rename_i content hphase
      cases h
      exact .create content hphase
    · cases h
  | write count =>
    simp only [Worker.step] at h
    split at h
    · rename_i content file written hphase
      obtain ⟨⟨-, hle⟩, heq⟩ := Option.ite_none_right_eq_some.mp h
      cases heq
      exact .write content file written count hphase hle
    · cases h
  | close =>
    simp only [Worker.step] at h
    split at h
    · rename_i content file written hphase
      obtain ⟨rfl, heq⟩ := Option.ite_none_right_eq_some.mp h
      cases heq
      exact .close content file hphase
    · cases h
  | refuse e =>
    simp only [Worker.step] at h
    split at h
    · cases h
      exact does_fail _
    · cases h
      exact does_fail _
    · cases h
  | rename =>
    simp only [Worker.step] at h
    split at h
    · rename_i content hphase
      obtain ⟨hfound, heq⟩ := Option.ite_none_right_eq_some.mp h
      obtain ⟨file, hfile⟩ := Option.isSome_iff_exists.mp hfound
      cases heq
      exact .rename content file hphase hfile
    · cases h
  | refuseRename e =>
    simp only [Worker.step] at h
    split at h
    · rename_i content hphase
      cases h
      exact .refuse e content hphase
    · cases h
  | remove removed =>
    simp only [Worker.step] at h
    split at h
    · rename_i e hphase
      cases h
      cases removed with
      | false => exact does_fail _
      | true =>
        obtain ⟨phase, hidle, heq⟩ := fail_idle w ("Failed to write file: " ++ e)
        rw [heq]
        exact .remove e w.attempt phase hphase hidle
    · cases h
  | abort e =>
    simp only [Worker.step] at h
    split at h <;> cases h <;> exact does_fail _
  | retry =>
    simp only [Worker.step] at h
    split at h
    · cases h
      exact .idle _ _ trivial
    · cases h

theorem spares_create (hv : v.Relies locate d) (hne : v.temp locate ≠ n) : Spares locate d (d.create n) v := by
  refine ⟨Nat.le_succ _, fun content file written hphase => ?_, fun content file written hphase name hname => ?_,
    fun file htemp => ?_⟩
  · exact Function.update_of_ne (hv.ne_handle hne hphase) _ _
  · rcases FileStore.dir_create_iff.mp hname with ⟨-, heq⟩ | ⟨-, hname⟩
    · exact absurd heq.symm (hv.ne_handle hne hphase)
    · exact hname
  · rcases FileStore.dir_create_iff.mp htemp with ⟨heq, -⟩ | ⟨-, htemp⟩
    · exact absurd heq hne
    · refine ⟨htemp, Function.update_of_ne ?_ _ _⟩
      rintro rfl
      exact hne (FileStore.eq_of_handle htemp)

theorem spares_rename (hv : v.Relies locate d) (hne : v.temp locate ≠ n) (hne' : v.temp locate ≠ m) :
    Spares locate d (d.rename n m) v := by
  refine ⟨Nat.le_refl _, fun _ _ _ _ => rfl, fun content file written hphase name hname => ?_, fun file htemp => ?_⟩
  · rcases FileStore.dir_rename_iff.mp hname with ⟨-, hdir⟩ | ⟨-, -, hname⟩
    · rw [Worker.Relies, hphase] at hv
      obtain ⟨-, -, -, -, hname', -⟩ := hv
      exact absurd (hname' n hdir).symm hne
    · exact hname
  · rcases FileStore.dir_rename_iff.mp htemp with ⟨heq, -⟩ | ⟨-, -, htemp⟩
    · exact absurd heq hne'
    · exact ⟨htemp, rfl⟩

theorem spares_remove : Spares locate d (d.remove n) v :=
  ⟨Nat.le_refl _, fun _ _ _ _ => rfl, fun _ _ _ _ _ hname => (FileStore.dir_remove_iff.mp hname).2,
    fun _ htemp => ⟨(FileStore.dir_remove_iff.mp htemp).2, rfl⟩⟩

theorem relies_create {content : Body} (hnonempty : content ≠ []) :
    Worker.Relies locate (d.create (w.temp locate)) { w with phase := .writing content (d.handle (w.temp locate)) 0 } := by
  refine ⟨hnonempty, FileStore.handle_lt, Nat.zero_le _, Function.update_self .., fun name hname => ?_, fun file hfile => ?_⟩
  · rcases FileStore.dir_create_iff.mp hname with ⟨heq, -⟩ | ⟨-, hname⟩
    · exact heq
    · exact FileStore.eq_of_handle hname
  · rcases FileStore.dir_create_iff.mp hfile with ⟨-, heq⟩ | ⟨hne, -⟩
    · exact heq.symm
    · exact absurd rfl hne

/-- The step of one worker; if it makes its temporary file, no other has it. -/
theorem Inv.work (h : Inv locate plugins before s) (hi : s.workers[i]? = some w) (hdoes : Does locate s.disk w op w' d' content)
    (hcreate : op = .create → ¬Configured locate plugins (w.temp locate) ∧
      ∀ v ∈ s.workers, v.phase.Holds → v.temp locate ≠ w.temp locate) :
    Inv locate plugins before
      { disk := d', workers := s.workers.set i w', log := (content.map (w.spec, ·)).toList ++ s.log } := by
  have hrefl : ∀ (j : Nat) (v : Worker), j ≠ i → s.workers[j]? = some v → v.phase.Holds → Spares locate s.disk s.disk v :=
    fun _ _ _ _ _ => .refl
  have hother : w.phase.Holds → ∀ (j : Nat) (v : Worker), j ≠ i → s.workers[j]? = some v → v.phase.Holds →
      v.temp locate ≠ w.temp locate := by
    intro hholds j v hj hv hholds' htemp
    exact hj (h.alone j i v w hv hi hholds' hholds htemp)
  have hconfigured : Configured locate plugins (locate w.spec.path) := by
    obtain ⟨p, hp, hspec⟩ := (h.listed i w hi).1
    exact ⟨p, hp, w.spec, hspec, rfl⟩
  have hrelies := h.relies i w hi
  cases hdoes with
  | idle attempt phase hidle =>
    exact h.rest hi rfl h.replaced (h.listed i w hi) (relies_of_idle hidle) hidle.not_temporary hrefl
  | obtain content hnonempty => exact h.rest hi rfl h.replaced (h.listed i w hi) hnonempty id hrefl
  | create content hphase =>
    obtain ⟨houtside, halone⟩ := hcreate rfl
    rw [Worker.Relies, hphase] at hrelies
    refine h.set hi rfl (h.replaced.mono (fun name hname => ?_) fun d hd => hd) (h.listed i w hi) (relies_create hrelies)
      (fun _ => houtside) (fun _ j v _ hv => halone v (List.mem_of_getElem? hv)) ?_ ?_
    · exact FileStore.content_create fun heq => houtside (heq ▸ hname)
    · intro content' file written heq j v hj hv content'' file' written' hphase'
      cases heq
      exact (h.relies j v hv).ne_handle (halone v (List.mem_of_getElem? hv) (by rw [hphase']; trivial)) hphase'
    · intro j v hj hv hholds
      exact spares_create (h.relies j v hv) (halone v (List.mem_of_getElem? hv) hholds)
  | write content file written count hphase hle =>
    have hholds : w.phase.Holds := by rw [hphase]; trivial
    have houtside := h.outside i w hi hholds.temporary
    have hname : ∀ name, s.disk.dir name = some file → name = w.temp locate := by
      rw [Worker.Relies, hphase] at hrelies
      exact hrelies.2.2.2.2.1
    have hapart : ∀ (j : Nat) (v : Worker), j ≠ i → s.workers[j]? = some v → ∀ content' file' written',
        v.phase = .writing content' file' written' → file' ≠ file :=
      fun j v hj hv _ _ _ hphase' => h.apart j i v w hv hi hj _ _ _ _ _ _ hphase' hphase
    refine h.set hi rfl (h.replaced.mono (fun name hconf => ?_) fun d hd => hd) (h.listed i w hi)
      (relies_write hrelies hphase hle) (fun _ => houtside) (fun _ => hother hholds) ?_ ?_
    · refine FileStore.content_write_of_ne fun hdir => houtside ?_
      rwa [← hname name hdir]
    · intro content' file' written' heq
      cases heq
      exact hapart
    · exact fun j v hj hv hholds' => spares_write hname (hother hholds j v hj hv hholds') (hapart j v hj hv)
  | close content file hphase =>
    have hholds : w.phase.Holds := by rw [hphase]; trivial
    exact h.set hi rfl h.replaced (h.listed i w hi) (relies_close hrelies hphase)
      (fun _ => h.outside i w hi hholds.temporary) (fun _ => hother hholds) nofun hrefl
  | rename content file hphase hfound =>
    have hholds : w.phase.Holds := by rw [hphase]; trivial
    rw [Worker.Relies, hphase] at hrelies
    refine h.rest hi rfl ?_ (listed_succeed (h.listed i w hi)) (relies_of_idle (succeed_idle w))
      (succeed_idle w).not_temporary fun j v hj hv hholds' => ?_
    · intro p hp spec hspec
      by_cases hpath : locate w.spec.path = locate spec.path
      · refine .inr ⟨(w.spec, content), List.mem_cons_self, hpath, hrelies.1, ?_⟩
        dsimp only
        rw [← hpath, FileStore.content_rename_self]
        exact FileStore.content_eq_some.mpr ⟨file, hfound, hrelies.2 file hfound⟩
      · have hne : locate spec.path ≠ w.temp locate :=
          fun heq => h.outside i w hi hholds.temporary ⟨p, hp, spec, hspec, heq⟩
        dsimp only
        rw [FileStore.content_rename hne (Ne.symm hpath)]
        rcases h.replaced p hp spec hspec with hold | ⟨d, hd, hbody⟩
        · exact .inl hold
        · exact .inr ⟨d, List.mem_cons_of_mem _ hd, hbody⟩
    · refine spares_rename (h.relies j v hv) (hother hholds j v hj hv hholds') ?_
      exact fun heq => h.outside j v hv hholds'.temporary (heq ▸ hconfigured)
  | refuse e content hphase =>
    have hholds : w.phase.Holds := by rw [hphase]; trivial
    exact h.set hi rfl h.replaced (h.listed i w hi) trivial (fun _ => h.outside i w hi hholds.temporary) nofun nofun hrefl
  | remove e attempt phase hphase hidle =>
    have houtside := h.outside i w hi (by rw [hphase]; trivial)
    refine h.rest hi rfl (h.replaced.mono (fun name hname => ?_) fun d hd => hd) (h.listed i w hi) (relies_of_idle hidle)
      hidle.not_temporary fun j v _ _ _ => spares_remove
    exact FileStore.content_remove fun heq => houtside (heq ▸ hname)

variable {a : Action} {actions : List Action}

theorem Inv.step (h : Inv locate plugins before s) (halone : Alone locate plugins s a s')
    (hstep : (machine locate plugins).step s a = some s') : Inv locate plugins before s' := by
  cases a with
  | start k =>
    obtain ⟨p, hp, rfl⟩ := Option.map_eq_some_iff.mp hstep
    exact h.start (List.mem_of_getElem? hp)
  | work i op =>
    obtain ⟨w, hi, hstep⟩ := Option.bind_eq_some_iff.mp hstep
    obtain ⟨⟨w', d', content⟩, hw', hstep⟩ := Option.bind_eq_some_iff.mp hstep
    cases hstep
    refine h.work hi (step_does hw') ?_
    rintro rfl
    exact halone i rfl w hi

/-- In a run in which each download makes its temporary file alone and where no configured path is, a path has its content from before or the whole body of one download. -/
theorem replaced_of_alone (halone : (machine locate plugins).Each (Alone locate plugins) ⟨before, [], []⟩ actions)
    (hrun : (machine locate plugins).run ⟨before, [], []⟩ actions = some s) : Replaced locate plugins before s :=
  (Machine.run_keeps (fun _ _ _ h halone hstep => h.step halone hstep) inv_start halone hrun).replaced

def noFiles : FileStore String := ⟨fun _ => none, fun _ => [], 0, nofun, nofun⟩

def sideBySide : DownloaderPlugin :=
  { files := [⟨"https://example.com/gfw.txt", "gfw.txt"⟩, ⟨"https://example.com/reject.txt", "reject.txt"⟩],
    timeoutSecs := 30, concurrent := true, maxRetries := 3, retryDelaySecs := 2 }

/-- While the first list is written, the second is asked for once more and then written too. -/
def bothLists : List Action :=
  [.start 0, .work 0 (.respond (.content [1, 2])), .work 1 (.respond (.status "503")), .work 0 .create, .work 1 .retry,
    .work 0 (.write 1), .work 1 (.respond (.content [3])), .work 1 .create, .work 1 (.write 1), .work 0 (.write 1),
    .work 1 .close, .work 0 .close, .work 0 .rename]

theorem replaced_of_alone_bothLists :
    ((machine id [sideBySide]).run ⟨noFiles, [], []⟩ bothLists).map
        (fun s => (s.disk.content "gfw.txt", s.disk.content "reject.txt", s.disk.content "reject.txt.tmp")) =
      some (some [1, 2], none, some [3]) ∧
      ∀ s, (machine id [sideBySide]).run ⟨noFiles, [], []⟩ bothLists = some s → Replaced id [sideBySide] noFiles s := by
  have halone : (machine id [sideBySide]).Each (Alone id [sideBySide]) ⟨noFiles, [], []⟩ bothLists := by decide +kernel
  exact ⟨by decide +kernel, fun s hrun => replaced_of_alone halone hrun⟩

/-- Two downloads to one path at once: the second has opened the temporary file when the first renames it. -/
def twice : DownloaderPlugin :=
  { files := [⟨"https://example.com/a.txt", "rules.txt"⟩, ⟨"https://example.com/b.txt", "rules.txt"⟩],
    timeoutSecs := 30, concurrent := true, maxRetries := 3, retryDelaySecs := 2 }

def emptied : List Action :=
  [.start 0, .work 0 (.respond (.content [1, 2])), .work 1 (.respond (.content [3])), .work 0 .create,
    .work 0 (.write 2), .work 0 .close, .work 1 .create, .work 0 .rename]

theorem not_replaced_emptied : ∃ s, (machine id [twice]).run ⟨noFiles, [], []⟩ emptied = some s ∧
    s.disk.content "rules.txt" = some [] ∧ ¬Replaced id [twice] noFiles s := by
  have hrun : ((machine id [twice]).run ⟨noFiles, [], []⟩ emptied).map (·.disk.content "rules.txt") = some (some []) := by
    decide +kernel
  obtain ⟨s, hrun, hcontent⟩ := Option.map_eq_some_iff.mp hrun
  refine ⟨s, hrun, hcontent, fun h => ?_⟩
  rcases h twice (List.mem_singleton.mpr rfl) _ List.mem_cons_self with hold | ⟨d, -, -, hnonempty, hbody⟩
  · exact nomatch hcontent.symm.trans hold
  · exact hnonempty (Option.some.inj (hcontent.symm.trans hbody)).symm

end DownloaderPlugin

end Lazydns
