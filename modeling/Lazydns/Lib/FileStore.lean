import Lazydns.Lib.Slots

/-!
# Names and files

A name leads to a file, and a file has its bytes whatever leads to it: a writer that has opened one keeps writing into it when the name has gone on to another. Making a file for a name that has one empties it. A renaming takes one name away and gives its file to the other.

Each operation comes with the names that it leaves alone.
-/

/-- The files that the names lead to, the bytes of each, and a bound for the files there are. Two names never lead to one file. -/
structure FileStore (Name : Type) where
  dir : Name → Option Nat
  data : Nat → List UInt8
  next : Nat
  single : ∀ {n m : Name} {file : Nat}, dir n = some file → dir m = some file → n = m
  fresh : ∀ {n : Name} {file : Nat}, dir n = some file → file < next

namespace FileStore

variable {Name : Type} (d : FileStore Name) (n : Name)

def content : Option (List UInt8) := (d.dir n).map d.data

def handle : Nat := (d.dir n).getD d.next

/-- Bytes that are written at a place; if the file is shorter there are zeros in between. -/
def overwrite (old : List UInt8) (pos : Nat) (bytes : List UInt8) : List UInt8 :=
  old.take pos ++ List.replicate (pos - old.length) 0 ++ bytes ++ old.drop (pos + bytes.length)

def write (file pos : Nat) (bytes : List UInt8) : FileStore Name :=
  { d with data := Function.update d.data file (overwrite (d.data file) pos bytes) }

variable {d n} {m : Name} {file : Nat}

theorem eq_of_handle (h : d.dir m = some (d.handle n)) : m = n := by
  rw [handle] at h
  cases hn : d.dir n with
  | some file =>
    rw [hn, Option.getD_some] at h
    exact d.single h hn
  | none =>
    rw [hn, Option.getD_none] at h
    exact absurd (d.fresh h) (Nat.lt_irrefl _)

theorem handle_lt : d.handle n < d.next + 1 := by
  rw [handle]
  cases hn : d.dir n with
  | some file => exact Nat.lt_succ_of_lt (d.fresh hn)
  | none => exact Nat.lt_succ_self _

theorem content_eq_some {bytes : List UInt8} : d.content n = some bytes ↔ ∃ file, d.dir n = some file ∧ d.data file = bytes :=
  Option.map_eq_some_iff

theorem overwrite_append {old : List UInt8} {pos : Nat} (h : old.length = pos) (bytes : List UInt8) :
    overwrite old pos bytes = old ++ bytes := by
  rw [overwrite, ← h, List.take_length, Nat.sub_self, List.drop_eq_nil_of_le (Nat.le_add_right _ _)]
  simp

@[simp] theorem dir_write {pos : Nat} {bytes : List UInt8} : (d.write file pos bytes).dir = d.dir := rfl

@[simp] theorem next_write {pos : Nat} {bytes : List UInt8} : (d.write file pos bytes).next = d.next := rfl

theorem content_write_of_ne {pos : Nat} {bytes : List UInt8} (h : d.dir m ≠ some file) :
    (d.write file pos bytes).content m = d.content m := by
  rw [content, content, dir_write]
  refine Option.map_congr fun file' hfile' => Function.update_of_ne ?_ _ _
  rintro rfl
  exact h hfile'

variable [DecidableEq Name]

variable (d n)

def create : FileStore Name where
  dir := Function.update d.dir n (some (d.handle n))
  data := Function.update d.data (d.handle n) []
  next := d.next + 1
  single {m m'} {file} hm hm' := by
    rcases Slots.update_eq_some_iff.mp hm with ⟨rfl, hfile⟩ | ⟨hne, hold⟩ <;>
      rcases Slots.update_eq_some_iff.mp hm' with ⟨rfl, hfile'⟩ | ⟨hne', hold'⟩
    · rfl
    · exact absurd (eq_of_handle (hold'.trans hfile.symm)) hne'
    · exact absurd (eq_of_handle (hold.trans hfile'.symm)) hne
    · exact d.single hold hold'
  fresh {m} {file} hm := by
    rcases Slots.update_eq_some_iff.mp hm with ⟨rfl, hfile⟩ | ⟨-, hm⟩
    · rw [← Option.some.inj hfile]
      exact handle_lt
    · exact Nat.lt_succ_of_lt (d.fresh hm)

def remove : FileStore Name where
  dir := Function.update d.dir n none
  data := d.data
  next := d.next
  single {m m'} {file} hm hm' := by
    rcases Slots.update_eq_some_iff.mp hm with ⟨-, hfile⟩ | ⟨-, hm⟩
    · cases hfile
    · rcases Slots.update_eq_some_iff.mp hm' with ⟨-, hfile⟩ | ⟨-, hm'⟩
      · cases hfile
      · exact d.single hm hm'
  fresh {m} {file} hm := by
    rcases Slots.update_eq_some_iff.mp hm with ⟨-, hfile⟩ | ⟨-, hm⟩
    · cases hfile
    · exact d.fresh hm

/-- Gives the file of one name to another; the file that had the other name has none then. -/
def rename (m : Name) : FileStore Name where
  dir := Function.update (d.remove n).dir m (d.dir n)
  data := d.data
  next := d.next
  single {k k'} {file} hk hk' := by
    have hmoved : ∀ {k : Name}, d.dir n = some file → (d.remove n).dir k ≠ some file := by
      intro k hn hk
      rcases Slots.update_eq_some_iff.mp hk with ⟨-, hfile⟩ | ⟨hne, hk⟩
      · cases hfile
      · exact hne (d.single hk hn)
    rcases Slots.update_eq_some_iff.mp hk with ⟨rfl, hfile⟩ | ⟨-, hold⟩ <;>
      rcases Slots.update_eq_some_iff.mp hk' with ⟨rfl, hfile'⟩ | ⟨-, hold'⟩
    · rfl
    · exact absurd hold' (hmoved hfile)
    · exact absurd hold (hmoved hfile')
    · exact (d.remove n).single hold hold'
  fresh {k} {file} hk := by
    rcases Slots.update_eq_some_iff.mp hk with ⟨-, hfile⟩ | ⟨-, hk⟩
    · exact d.fresh hfile
    · exact (d.remove n).fresh hk

variable {d n}

theorem dir_create_iff : (d.create n).dir m = some file ↔ m = n ∧ d.handle n = file ∨ m ≠ n ∧ d.dir m = some file := by
  rw [create, Slots.update_eq_some_iff, Option.some_inj]

theorem dir_remove_iff : (d.remove n).dir m = some file ↔ m ≠ n ∧ d.dir m = some file := by
  rw [remove, Slots.update_eq_some_iff]
  simp

theorem dir_rename_iff {k : Name} :
    (d.rename n m).dir k = some file ↔ k = m ∧ d.dir n = some file ∨ k ≠ m ∧ k ≠ n ∧ d.dir k = some file := by
  rw [rename, Slots.update_eq_some_iff, dir_remove_iff]

theorem content_create (h : m ≠ n) : (d.create n).content m = d.content m := by
  rw [content, content]
  have hdir : (d.create n).dir m = d.dir m := Function.update_of_ne h _ _
  rw [hdir]
  refine Option.map_congr fun file hfile => Function.update_of_ne ?_ _ _
  rintro rfl
  exact h (eq_of_handle hfile)

theorem content_remove (h : m ≠ n) : (d.remove n).content m = d.content m :=
  congrArg (Option.map d.data) (Function.update_of_ne h _ _)

theorem content_rename_self : (d.rename n m).content m = d.content n :=
  congrArg (Option.map d.data) (Function.update_self ..)

theorem content_rename {k : Name} (hn : k ≠ n) (hm : k ≠ m) : (d.rename n m).content k = d.content k :=
  congrArg (Option.map d.data) ((Function.update_of_ne hm _ _).trans (Function.update_of_ne hn _ _))

end FileStore
