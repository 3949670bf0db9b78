import Mathlib.Data.List.TakeWhile
import Lazydns.Property.Reload

/-!
# Network files and their documentation

The documented format of a network file: blank lines, comments, and entries, each of which may have a comment behind it. An `ip_set` takes a line as a whole, so an entry with a comment behind it parses as nothing and is skipped. All other lines are read as documented.
-/

namespace Lazydns

open Dns

theorem length_filterMap_le {α β : Type} {f g : α → Option β} {l : List α} (h : ∀ x ∈ l, f x = g x ∨ f x = none) :
    (l.filterMap f).length ≤ (l.filterMap g).length := by
  induction l with
  | nil => exact Nat.le_refl 0
  | cons x l ih =>
    have hle := ih fun y hy => h y (List.mem_cons_of_mem _ hy)
    rcases h x List.mem_cons_self with heq | hnone
    · cases hg : g x with
      | none => rwa [List.filterMap_cons_none (heq.trans hg), List.filterMap_cons_none hg]
      | some b =>
        rw [List.filterMap_cons_some (heq.trans hg), List.filterMap_cons_some hg]
        exact Nat.succ_le_succ hle
    · rw [List.filterMap_cons_none hnone]
      exact hle.trans (List.Sublist.filterMap g (List.sublist_cons_self x l)).length_le

theorem filterMap_eq_filterMap_iff {α β : Type} {f g : α → Option β} {l : List α}
    (h : ∀ x ∈ l, f x = g x ∨ f x = none) : l.filterMap f = l.filterMap g ↔ ∀ x ∈ l, f x = g x := by
  refine ⟨?_, List.filterMap_congr⟩
  induction l with
  | nil => exact fun _ => nofun
  | cons x l ih =>
    obtain ⟨hhead, htail⟩ := List.forall_mem_cons.mp h
    intro hlists
    have hx : f x = g x := by
      rcases hhead with heq | hnone
      · exact heq
      · cases hg : g x with
        | none => exact hnone
        | some b =>
          rw [List.filterMap_cons_none hnone, List.filterMap_cons_some hg] at hlists
          have hle := length_filterMap_le htail
          rw [hlists, List.length_cons] at hle
          exact absurd hle (Nat.not_succ_le_self _)
    refine List.forall_mem_cons.mpr ⟨hx, ih htail ?_⟩
    cases hg : g x with
    | none => rwa [List.filterMap_cons_none (hx.trans hg), List.filterMap_cons_none hg] at hlists
    | some b =>
      rw [List.filterMap_cons_some (hx.trans hg), List.filterMap_cons_some hg] at hlists
      exact (List.cons.inj hlists).2

/-! ### Trimming -/

theorem mem_dropWhile_of_mem {α : Type} {p : α → Bool} {a : α} {l : List α} (ha : p a = false) (h : a ∈ l) :
    a ∈ l.dropWhile p := by
  rw [← List.takeWhile_append_dropWhile (p := p) (l := l), List.mem_append] at h
  refine h.resolve_left fun htake => ?_
  have hp := List.mem_takeWhile_imp htake
  rw [ha] at hp
  cases hp

theorem mem_trim_of_mem {c : Char} {s : String} (hc : isWhitespace c = false) (h : c ∈ s.toList) :
    c ∈ (trim s).toList := by
  rw [trim, String.toList_ofList, List.mem_reverse]
  exact mem_dropWhile_of_mem hc (List.mem_reverse.mpr (mem_dropWhile_of_mem hc h))

theorem mem_of_mem_trim {c : Char} {s : String} (h : c ∈ (trim s).toList) : c ∈ s.toList := by
  rw [trim, String.toList_ofList, List.mem_reverse] at h
  exact (List.dropWhile_sublist _).mem (List.mem_reverse.mp ((List.dropWhile_sublist _).mem h))

theorem isWhitespace_of_trim_eq_empty {s : String} (h : trim s = "") {c : Char} (hc : c ∈ s.toList) :
    isWhitespace c = true := by
  by_contra hblank
  have hmem := mem_trim_of_mem (Bool.not_eq_true _ ▸ hblank) hc
  rw [h] at hmem
  cases hmem

namespace IpSetDataset

/-! ### The documented format -/

/-- What is in front of a comment, without the blanks around it. -/
def entryText (line : String) : String := trim (String.ofList (line.toList.takeWhile (· ≠ '#')))

/-- An entry with a comment behind it. -/
def Commented (line : String) : Prop := entryText line ≠ "" ∧ '#' ∈ line.toList

instance (line : String) : Decidable (Commented line) := inferInstanceAs (Decidable (_ ∧ _))

variable (env : RuleEnv) (disk : Disk)

/-- The network that a line lists. -/
def lineEntry (line : String) : Option IpNet := if entryText line = "" then none else parseEntry env (entryText line)

/-- A line is blank, a comment, or an entry that parses, with or without a comment behind it. -/
def WellFormed (line : String) : Prop := entryText line = "" ∨ (parseEntry env (entryText line)).isSome

instance (line : String) : Decidable (WellFormed env line) := inferInstanceAs (Decidable (_ ∨ _))

/-- The lines of a file. -/
def linesAt (path : String) : List String := ((readToString disk path).map strLines).getD []

/-- Files in the documented format. -/
def InFormat (files : List String) : Prop :=
  ∀ path ∈ files, (readToString disk path).isSome ∧ ∀ line ∈ linesAt disk path, WellFormed env line

instance (files : List String) : Decidable (InFormat env disk files) := inferInstanceAs (Decidable (∀ _ ∈ _, _))

/-- All networks that the files and the inline addresses list. -/
def listed (config : IpSetConfig) : List IpNet :=
  (config.files.flatMap (linesAt disk)).filterMap (lineEntry env) ++ config.ips.filterMap (parseEntry env)

/-- Membership is as documented, and every listed entry is loaded. -/
structure Exact (config : IpSetConfig) : Prop where
  membership : ∀ a, (init env disk config).matches a = true ↔ ∃ net ∈ listed env disk config, net.contains a = true
  kept : (init env disk config).networks = listed env disk config

/-- The parsers take no text with a `#`. -/
def NoHash : Prop := ∀ s : String, '#' ∈ s.toList → env.parseNet s = none ∧ env.parseIp s = none

variable {env disk} {config : IpSetConfig} {line : String}

/-! ### One line -/

theorem parseEntry_of_hash (hhash : NoHash env) {s : String} (hs : '#' ∈ s.toList) : parseEntry env s = none := by
  rw [parseEntry, (hhash s hs).1, (hhash s hs).2]

theorem entryText_of_not_hash (h : '#' ∉ line.toList) : entryText line = trim line := by
  rw [entryText, List.takeWhile_eq_self_iff.mpr ?_, String.ofList_toList]
  intro c hc
  exact decide_eq_true fun heq => h (heq ▸ hc)

theorem head?_trim_of_comment (hempty : entryText line = "") (hhash : '#' ∈ line.toList) :
    (trim line).toList.head? = some '#' := by
  have hblank : ∀ c ∈ line.toList.takeWhile (· ≠ '#'), isWhitespace c = true := fun c hc =>
    isWhitespace_of_trim_eq_empty hempty (String.toList_ofList.symm ▸ hc)
  have hrest : line.toList.dropWhile (· ≠ '#') ≠ [] := by
    intro hnil
    have hall := List.dropWhile_eq_nil_iff.mp hnil '#' hhash
    exact of_decide_eq_true hall rfl
  obtain ⟨c, rest, hcons⟩ := List.exists_cons_of_ne_nil hrest
  obtain rfl : c = '#' := by
    have hhead := List.head_dropWhile_not (· ≠ '#') hrest
    simp only [hcons, List.head_cons] at hhead
    exact not_not.mp (of_decide_eq_false hhead)
  have hline : line.toList = line.toList.takeWhile (· ≠ '#') ++ '#' :: rest := by
    rw [← hcons, List.takeWhile_append_dropWhile]
  have hfront : line.toList.dropWhile isWhitespace = '#' :: rest := by
    rw [hline, List.dropWhile_append_of_pos hblank, List.dropWhile_cons_of_neg (by decide)]
  have hback : ∀ cs : List Char, ((cs ++ ['#']).dropWhile isWhitespace).reverse.head? = some '#' := by
    intro cs
    induction cs with
    | nil => rfl
    | cons c cs ih =>
      by_cases hc : isWhitespace c
      · rwa [List.cons_append, List.dropWhile_cons_of_pos hc]
      · rw [List.cons_append, List.dropWhile_cons_of_neg hc, List.reverse_cons, List.reverse_append]
        rfl
  rw [trim, String.toList_ofList, hfront, List.reverse_cons, hback]

theorem parseLine_eq (hline : ¬Commented line) : parseLine env line = lineEntry env line := by
  rw [parseLine, lineEntry]
  by_cases hin : '#' ∈ line.toList
  · have hempty : entryText line = "" := by_contra fun h => hline ⟨h, hin⟩
    rw [if_pos (.inr (head?_trim_of_comment hempty hin)), if_pos hempty]
  · have hhead : (trim line).toList.head? ≠ some '#' := fun h =>
      hin (mem_of_mem_trim (List.mem_of_mem_head? (Option.mem_def.mpr h)))
    rw [entryText_of_not_hash hin]
    simp only [hhead, or_false]

theorem parseLine_of_commented (hhash : NoHash env) (hline : Commented line) : parseLine env line = none := by
  rw [parseLine]
  split
  · rfl
  · exact parseEntry_of_hash hhash (mem_trim_of_mem (by decide) hline.2)

theorem lineEntry_isSome (hwell : WellFormed env line) (hline : Commented line) : (lineEntry env line).isSome := by
  rw [lineEntry, if_neg hline.1]
  exact hwell.resolve_left hline.1

/-! ### All lines -/

theorem networks_init (hfiles : InFormat env disk config.files) : (init env disk config).networks =
    (config.files.flatMap (linesAt disk)).filterMap (parseLine env) ++ config.ips.filterMap (parseEntry env) := by
  rw [init, loadNetworks, List.filterMap_flatMap]
  have hload : ∀ path ∈ config.files,
      loadIpFile env disk path = some ((linesAt disk path).filterMap (parseLine env)) := by
    intro path hpath
    obtain ⟨content, hcontent⟩ := Option.isSome_iff_exists.mp (hfiles path hpath).1
    rw [loadIpFile, linesAt, hcontent]
    rfl
  rw [List.filterMap_congr hload, List.filterMap_eq_map', List.flatMap_def]

/-- An `ip_set` loads what its files list, entry by entry, exactly if no entry has a comment behind it. -/
theorem networks_eq_listed_iff (hhash : NoHash env) (hfiles : InFormat env disk config.files) :
    (init env disk config).networks = listed env disk config ↔
      ∀ path ∈ config.files, ∀ line ∈ linesAt disk path, ¬Commented line := by
  have hwell : ∀ line ∈ config.files.flatMap (linesAt disk), WellFormed env line := by
    intro line hline
    obtain ⟨path, hpath, hline⟩ := List.mem_flatMap.mp hline
    exact (hfiles path hpath).2 line hline
  have hone : ∀ line ∈ config.files.flatMap (linesAt disk),
      parseLine env line = lineEntry env line ∨ parseLine env line = none := by
    intro line _
    by_cases hcommented : Commented line
    · exact .inr (parseLine_of_commented hhash hcommented)
    · exact .inl (parseLine_eq hcommented)
  rw [networks_init hfiles, listed, List.append_cancel_right_eq, filterMap_eq_filterMap_iff hone]
  constructor
  · intro h path hpath line hline hcommented
    have hmem := List.mem_flatMap.mpr ⟨path, hpath, hline⟩
    have hsome := lineEntry_isSome (hwell line hmem) hcommented
    rw [← h line hmem, parseLine_of_commented hhash hcommented] at hsome
    cases hsome
  · intro h line hline
    obtain ⟨path, hpath, hmem⟩ := List.mem_flatMap.mp hline
    exact parseLine_eq (h path hpath line hmem)

/-- With files in the documented format, membership is as documented and nothing is dropped exactly if no entry has a comment behind it. -/
theorem membership_iff (hhash : NoHash env) (hfiles : InFormat env disk config.files) :
    Exact env disk config ↔ ∀ path ∈ config.files, ∀ line ∈ linesAt disk path, ¬Commented line := by
  rw [← networks_eq_listed_iff hhash hfiles]
  refine ⟨Exact.kept, fun hkept => ⟨fun a => ?_, hkept⟩⟩
  rw [IpSetDataset.matches, hkept, List.any_eq_true]

theorem noHash_plain : NoHash .plain := by
  intro s hs
  have hne : ∀ t : String, '#' ∉ t.toList → s ≠ t := fun t ht heq => ht (heq ▸ hs)
  exact ⟨if_neg (hne _ (by decide)), if_neg (hne _ (by decide))⟩

/-- A network, a blank line, a comment and an address. -/
def documentedDisk : Disk := fun _ => some (Bytes.ofString "10.0.0.0/8\n\n# Gateway\n10.0.0.1\n")

theorem membership_iff_private : Exact .plain documentedDisk ⟨["list"], ["10.0.0.1"], false⟩ ∧
    listed .plain documentedDisk ⟨["list"], ["10.0.0.1"], false⟩ =
      [.v4 0x0A000000 8, .v4 0x0A000001 32, .v4 0x0A000001 32] :=
  ⟨(membership_iff noHash_plain (by decide +kernel)).mpr (by decide +kernel), by decide +kernel⟩

/-- A network, a blank line and an address, each with a comment somewhere. -/
def commentedDisk : Disk := fun _ => some (Bytes.ofString "10.0.0.0/8 # Private\n\n# Gateway\n10.0.0.1\n")

/-- A network with a comment behind it is not in the set: its addresses match nothing. -/
theorem not_exact_private : InFormat .plain commentedDisk ["list"] ∧
    .v4 0x0A000000 8 ∈ listed .plain commentedDisk ⟨["list"], [], false⟩ ∧
    (IpNet.v4 0x0A000000 8).contains (.v4 0x0A010203) = true ∧
    (init .plain commentedDisk ⟨["list"], [], false⟩).matches (.v4 0x0A010203) = false ∧
    ¬Exact .plain commentedDisk ⟨["list"], [], false⟩ := by
  have hlisted : .v4 0x0A000000 8 ∈ listed .plain commentedDisk ⟨["list"], [], false⟩ := by decide +kernel
  have hcontains : (IpNet.v4 0x0A000000 8).contains (.v4 0x0A010203) = true := by decide
  have hmatches : (init .plain commentedDisk ⟨["list"], [], false⟩).matches (.v4 0x0A010203) = false := by
    decide +kernel
  refine ⟨by decide +kernel, hlisted, hcontains, hmatches, fun h => ?_⟩
  have htrue := (h.membership (.v4 0x0A010203)).mpr ⟨_, hlisted, hcontains⟩
  rw [hmatches] at htrue
  cases htrue

end IpSetDataset

end Lazydns
