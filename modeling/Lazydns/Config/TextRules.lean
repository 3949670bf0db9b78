import Mathlib.Data.List.TakeWhile
import Lazydns.Config.Text
import Lazydns.Lib.Template

/-!
# Patterns of the loader

Each pattern of the loader takes a text apart, and so does the search for a text that is replaced. A match is told by its own text, since nothing behind it could have made it longer.
-/

namespace Lazydns

open Template

theorem replaceFrom_eq (old new : List Char) (skip : Nat) (text : List Char) :
    replaceFrom old new skip text = fill (fun _ => new) (piecesFrom (literal old) skip text) := by
  induction text generalizing skip with
  | nil => cases skip <;> rfl
  | cons c text ih =>
    cases skip with
    | succ skip => exact ih skip
    | zero =>
      rw [replaceFrom, piecesFrom, literal]
      split
      · rw [ih]
        rfl
      · rw [ih]
        rfl

theorem toList_replace (s old new : String) : (replace s old new).toList = replaceAll old.toList new.toList s.toList := by
  rw [replace, String.toList_ofList, replaceFrom_eq]
  rfl

theorem capturesIter_eq {γ : Type} (matchAt : List Char → Option (γ × Nat)) (content : String) :
    capturesIter matchAt content = holes (pieces matchAt content.toList) := by
  have hfrom : ∀ (text : List Char) (skip : Nat), capturesFrom matchAt skip text = holes (piecesFrom matchAt skip text) := by
    intro text
    induction text with
    | nil =>
      intro skip
      cases skip <;> rfl
    | cons c text ih =>
      intro skip
      cases skip with
      | succ skip => exact ih skip
      | zero =>
        rw [capturesFrom, piecesFrom]
        cases matchAt (c :: text) with
        | none => exact ih 0
        | some found => exact congrArg (List.cons found.1) (ih _)
  exact hfrom content.toList 0

/-! ### Placeholders -/

section

variable {name value tail : List Char}

theorem takeWhile_behind {p : Char → Bool} {l : List Char} (hl : ∀ c ∈ l, p c = true) {c : Char} (hc : p c = false)
    (tail : List Char) : (l ++ c :: tail).takeWhile p = l := by
  rw [List.takeWhile_append_of_pos hl, List.takeWhile_cons_of_neg (by simp [hc]), List.append_nil]

theorem dropWhile_behind {p : Char → Bool} {l : List Char} (hl : ∀ c ∈ l, p c = true) {c : Char} (hc : p c = false)
    (tail : List Char) : (l ++ c :: tail).dropWhile p = c :: tail := by
  rw [List.dropWhile_append_of_pos hl, List.dropWhile_cons_of_neg (by simp [hc])]

theorem eq_behind {p : Char → Bool} {l : List Char} (h : l.dropWhile p ≠ []) :
    ∃ c tail, p c = false ∧ l = l.takeWhile p ++ c :: tail := by
  obtain ⟨c, tail, hdrop⟩ := List.exists_cons_of_ne_nil h
  have hhead := List.head?_dropWhile_not p l
  rw [hdrop] at hhead
  refine ⟨c, tail, by simpa using hhead, ?_⟩
  rw [← hdrop, List.takeWhile_append_dropWhile]

theorem matchEnv_plain (hne : name ≠ []) (hname : ∀ c ∈ name, isVarChar c = true) (tail : List Char) :
    matchEnv ('$' :: '\x7b' :: (name ++ '\x7d' :: tail)) =
      some (⟨String.ofList ('$' :: '\x7b' :: (name ++ ['\x7d'])), String.ofList name, none⟩, name.length + 3) := by
  have hclose : isVarChar '\x7d' = false := by decide
  have htake : ('$' :: '\x7b' :: (name ++ '\x7d' :: tail)).take (name.length + 3) = '$' :: '\x7b' :: (name ++ ['\x7d']) := by
    rw [List.take_succ_cons, List.take_succ_cons, List.take_length_add_append]
    rfl
  rw [matchEnv, takeWhile_behind hname hclose, dropWhile_behind hname hclose]
  dsimp only
  rw [if_neg hne, htake]
  rfl

theorem matchEnv_default (hne : name ≠ []) (hname : ∀ c ∈ name, isVarChar c = true) (hvalue : value ≠ [])
    (hclose : '\x7d' ∉ value) (tail : List Char) :
    matchEnv ('$' :: '\x7b' :: (name ++ ':' :: '-' :: (value ++ '\x7d' :: tail))) =
      some (⟨String.ofList ('$' :: '\x7b' :: (name ++ ':' :: '-' :: (value ++ ['\x7d']))), String.ofList name,
        some (String.ofList value)⟩, name.length + value.length + 5) := by
  have hcolon : isVarChar ':' = false := by decide
  have hin : ∀ c ∈ value, decide (c ≠ '\x7d') = true := fun c hc => decide_eq_true fun heq => hclose (heq ▸ hc)
  have hout : decide ('\x7d' ≠ '\x7d') = false := by decide
  have htake : ('$' :: '\x7b' :: (name ++ ':' :: '-' :: (value ++ '\x7d' :: tail))).take (name.length + value.length + 5) =
      '$' :: '\x7b' :: (name ++ ':' :: '-' :: (value ++ ['\x7d'])) := by
    have hlength : name.length + value.length + 5 = name.length + (value.length + 1 + 2) + 2 := by omega
    rw [hlength, List.take_succ_cons, List.take_succ_cons, List.take_length_add_append, List.take_succ_cons,
      List.take_succ_cons, List.take_length_add_append]
    rfl
  rw [matchEnv, takeWhile_behind hname hcolon, dropWhile_behind hname hcolon]
  dsimp only
  split
  · rename_i hcons
    exact absurd (List.cons.inj hcons).1 (by decide)
  · rename_i rest hcons
    cases hcons
    rw [takeWhile_behind hin hout, dropWhile_behind hin hout, if_neg (by simp [hne, hvalue]), htake]
  · rename_i hother
    exact absurd rfl (hother _)

theorem matchEnv_cases {text : List Char} {cap : EnvCapture} {length : Nat} (h : matchEnv text = some (cap, length)) :
    ∃ name tail, name ≠ [] ∧ (∀ c ∈ name, isVarChar c = true) ∧
      (text = '$' :: '\x7b' :: (name ++ '\x7d' :: tail) ∨
        ∃ value, value ≠ [] ∧ '\x7d' ∉ value ∧ text = '$' :: '\x7b' :: (name ++ ':' :: '-' :: (value ++ '\x7d' :: tail))) := by
  unfold matchEnv at h
  split at h
  · rename_i rest
    have hsplit := List.takeWhile_append_dropWhile (p := isVarChar) (l := rest)
    dsimp only at h
    split at h
    · rename_i tail hdrop
      obtain ⟨hne, -⟩ := Option.ite_none_left_eq_some.mp h
      rw [hdrop] at hsplit
      exact ⟨_, tail, hne, fun c hc => List.mem_takeWhile_imp hc, .inl (by rw [hsplit])⟩
    · rename_i rest' hdrop
      obtain ⟨hne, -⟩ := Option.ite_none_left_eq_some.mp h
      rw [hdrop] at hsplit
      simp only [not_or] at hne
      obtain ⟨hname, hvalue, htail⟩ := hne
      obtain ⟨c, tail, hc, hrest'⟩ := eq_behind htail
      obtain rfl : c = '\x7d' := by simpa using hc
      have hclose : '\x7d' ∉ rest'.takeWhile fun c => decide (c ≠ '\x7d') := by
        intro hmem
        have hne := List.mem_takeWhile_imp hmem
        exact of_decide_eq_true hne rfl
      refine ⟨_, tail, hname, fun c hc => List.mem_takeWhile_imp hc, .inr ⟨_, hvalue, hclose, ?_⟩⟩
      rw [← hrest', hsplit]
    · cases h
  · cases h

theorem fullMatch_matchEnv {text : List Char} {cap : EnvCapture} {length : Nat} (h : matchEnv text = some (cap, length)) :
    cap.fullMatch = String.ofList (text.take length) ∧ 0 < length := by
  unfold matchEnv at h
  split at h
  · dsimp only at h
    split at h
    · obtain ⟨-, heq⟩ := Option.ite_none_left_eq_some.mp h
      cases heq
      exact ⟨rfl, Nat.succ_pos _⟩
    · obtain ⟨-, heq⟩ := Option.ite_none_left_eq_some.mp h
      cases heq
      exact ⟨rfl, Nat.succ_pos _⟩
    · cases h
  · cases h

theorem lawful_matchEnv : Lawful matchEnv fun cap => cap.fullMatch.toList where
  nil := rfl
  source_eq h := by
    rw [(fullMatch_matchEnv h).1, String.toList_ofList]
  length_pos h := (fullMatch_matchEnv h).2
  again h := by
    obtain ⟨name, tail, hne, hname, rfl | ⟨value, hvalue, hclose, rfl⟩⟩ := matchEnv_cases h
    · rw [matchEnv_plain hne hname] at h
      cases h
      rw [String.toList_ofList, matchEnv_plain hne hname]
    · rw [matchEnv_default hne hname hvalue hclose] at h
      cases h
      rw [String.toList_ofList, matchEnv_default hne hname hvalue hclose]

end

/-! ### Directives -/

section

variable {blanks path tail : List Char}

theorem matchInclude_append (hne : blanks ≠ []) (hblanks : ∀ c ∈ blanks, isWhitespace c = true) (hpath : path ≠ [])
    (hchars : ∀ c ∈ path, isWhitespace c = false) (tail : List Char) (htail : ∀ c ∈ tail.head?, isWhitespace c = true) :
    matchInclude ("!include".toList ++ (blanks ++ (path ++ tail))) =
      some (⟨String.ofList ("!include".toList ++ (blanks ++ path)), String.ofList path⟩,
        8 + blanks.length + path.length) := by
  obtain ⟨c, path', rfl⟩ := List.exists_cons_of_ne_nil hpath
  have hc := hchars c List.mem_cons_self
  have hnot : ∀ d ∈ c :: path', (!isWhitespace d) = true := by
    intro d hd
    rw [hchars d hd]
    rfl
  have hstop : tail.takeWhile (fun d => !isWhitespace d) = [] := by
    cases tail with
    | nil => rfl
    | cons d tail => exact List.takeWhile_cons_of_neg (by simp [htail d rfl])
  have hdrop : ("!include".toList ++ (blanks ++ (c :: path' ++ tail))).drop 8 = blanks ++ (c :: path' ++ tail) := rfl
  have htake : ("!include".toList ++ (blanks ++ (c :: path' ++ tail))).take (8 + blanks.length + (c :: path').length) =
      "!include".toList ++ (blanks ++ c :: path') := by
    rw [← List.append_assoc blanks, ← List.append_assoc, Nat.add_assoc]
    refine List.take_left' ?_
    rw [List.length_append, List.length_append]
    rfl
  rw [matchInclude, if_pos (List.isPrefixOf_iff_prefix.mpr (List.prefix_append _ _)), hdrop, List.cons_append,
    takeWhile_behind hblanks hc, dropWhile_behind hblanks hc, ← List.cons_append, List.takeWhile_append_of_pos hnot,
    hstop, List.append_nil]
  dsimp only
  rw [if_neg (by simp [hne]), htake]

theorem matchInclude_cases {text : List Char} {cap : IncludeCapture} {length : Nat}
    (h : matchInclude text = some (cap, length)) :
    ∃ blanks path tail, blanks ≠ [] ∧ (∀ c ∈ blanks, isWhitespace c = true) ∧ path ≠ [] ∧
      (∀ c ∈ path, isWhitespace c = false) ∧ (∀ c ∈ tail.head?, isWhitespace c = true) ∧
      text = "!include".toList ++ (blanks ++ (path ++ tail)) := by
  rw [matchInclude] at h
  obtain ⟨hstart, h⟩ := Option.ite_none_right_eq_some.mp h
  obtain ⟨rest, rfl⟩ := List.isPrefixOf_iff_prefix.mp hstart
  obtain ⟨hne, -⟩ := Option.ite_none_left_eq_some.mp h
  have hdrop : ("!include".toList ++ rest).drop 8 = rest := rfl
  rw [hdrop, not_or] at hne
  refine ⟨rest.takeWhile isWhitespace, _, (rest.dropWhile isWhitespace).dropWhile fun c => !isWhitespace c, hne.1,
    fun c hc => List.mem_takeWhile_imp hc, hne.2, fun c hc => ?_, fun c hc => ?_, ?_⟩
  · have hnot := List.mem_takeWhile_imp hc
    simpa using hnot
  · have hhead := List.head?_dropWhile_not (fun c => !isWhitespace c) (rest.dropWhile isWhitespace)
    rw [hc] at hhead
    simpa using hhead
  · rw [List.takeWhile_append_dropWhile, List.takeWhile_append_dropWhile]

theorem fullMatch_matchInclude {text : List Char} {cap : IncludeCapture} {length : Nat}
    (h : matchInclude text = some (cap, length)) : cap.fullMatch = String.ofList (text.take length) ∧ 0 < length := by
  rw [matchInclude] at h
  obtain ⟨-, h⟩ := Option.ite_none_right_eq_some.mp h
  obtain ⟨-, heq⟩ := Option.ite_none_left_eq_some.mp h
  cases heq
  exact ⟨rfl, Nat.add_pos_left (Nat.add_pos_left (by decide) _) _⟩

theorem lawful_matchInclude : Lawful matchInclude fun cap => cap.fullMatch.toList where
  nil := by decide
  source_eq h := by
    rw [(fullMatch_matchInclude h).1, String.toList_ofList]
  length_pos h := (fullMatch_matchInclude h).2
  again h := by
    obtain ⟨blanks, path, tail, hne, hblanks, hpath, hchars, htail, rfl⟩ := matchInclude_cases h
    rw [matchInclude_append hne hblanks hpath hchars tail htail] at h
    cases h
    have hself := matchInclude_append hne hblanks hpath hchars [] nofun
    rw [List.append_nil] at hself
    rw [String.toList_ofList, hself]

end

end Lazydns
