import Mathlib.Data.List.Basic
import Lazydns.Config.ValuePath

/-!
# Names of variables

A name is split into the tag and the path at the last `_ARGS_` behind which something follows, and the path at every underscore. So a name leads to the argument of a key exactly if its text is one word, which is not a number.
-/

namespace Lazydns

open Validation (parseUnsigned)

/-! ### The pattern -/

theorem splitArgs_eq_some {text tag path : List Char} (h : splitArgs text = some (tag, path)) :
    text = tag ++ "_ARGS_".toList ++ path ∧ (∀ c ∈ tag, isVarChar c = true) ∧ path ≠ [] ∧ '\n' ∉ path := by
  induction text generalizing tag with
  | nil => cases h
  | cons c text ih =>
    have hhere : ∀ {tag path : List Char},
        (if "_ARGS_".toList.isPrefixOf (c :: text) ∧ (c :: text).drop 6 ≠ [] ∧ '\n' ∉ (c :: text).drop 6 then
          some ([], (c :: text).drop 6) else none) = some (tag, path) →
        c :: text = tag ++ "_ARGS_".toList ++ path ∧ (∀ c ∈ tag, isVarChar c = true) ∧ path ≠ [] ∧ '\n' ∉ path := by
      intro tag path h
      obtain ⟨⟨hargs, hne, hline⟩, heq⟩ := Option.ite_none_right_eq_some.mp h
      cases heq
      obtain ⟨rest, hrest⟩ := List.isPrefixOf_iff_prefix.mp hargs
      refine ⟨?_, nofun, hne, hline⟩
      rw [List.nil_append, ← hrest]
      rfl
    rw [splitArgs] at h
    by_cases hc : isVarChar c
    · rw [if_pos hc] at h
      cases hsplit : splitArgs text with
      | none =>
        rw [hsplit] at h
        exact hhere h
      | some found =>
        rw [hsplit] at h
        cases h
        obtain ⟨htext, htag, hpath⟩ := ih hsplit
        exact ⟨congrArg (List.cons c) htext, List.forall_mem_cons.mpr ⟨hc, htag⟩, hpath⟩
    · rw [if_neg hc] at h
      exact hhere h

theorem splitArgs_append {tag path : List Char} (htag : ∀ c ∈ tag, isVarChar c = true) (hne : path ≠ [])
    (hline : '\n' ∉ path) (hword : '_' ∉ path) :
    splitArgs (tag ++ "_ARGS_".toList ++ path) = some (tag, path) := by
  induction tag with
  | nil =>
    have hnone : splitArgs ("ARGS_".toList ++ path) = none := by
      cases hsplit : splitArgs ("ARGS_".toList ++ path) with
      | none => rfl
      | some found =>
        obtain ⟨htext, -⟩ := splitArgs_eq_some hsplit
        have hcount := congrArg (List.count '_') htext
        rw [List.count_append, List.count_append, List.count_append, List.count_eq_zero_of_not_mem hword,
          show "ARGS_".toList.count '_' = 1 from by decide, show "_ARGS_".toList.count '_' = 2 from by decide] at hcount
        omega
    have hcons : [] ++ "_ARGS_".toList ++ path = '_' :: ("ARGS_".toList ++ path) := rfl
    have hargs : "_ARGS_".toList.isPrefixOf ('_' :: ("ARGS_".toList ++ path)) = true :=
      List.isPrefixOf_iff_prefix.mpr (List.prefix_append "_ARGS_".toList path)
    rw [hcons, splitArgs, if_pos (by decide), hnone]
    exact if_pos ⟨hargs, hne, hline⟩
  | cons c tag ih =>
    obtain ⟨hc, htag⟩ := List.forall_mem_cons.mp htag
    rw [List.cons_append, List.cons_append, splitArgs, if_pos hc, ih htag]

theorem matchPluginArgs_eq_some {name tag path : String} (h : matchPluginArgs name = some (tag, path)) :
    name = "PLUGINS_" ++ tag ++ "_ARGS_" ++ path ∧ tag ≠ "" ∧ (∀ c ∈ tag.toList, isVarChar c = true) ∧
      path ≠ "" ∧ '\n' ∉ path.toList := by
  rw [matchPluginArgs] at h
  split at h
  · cases h
  · rename_i tagChars pathChars hempty hsplit
    cases h
    obtain ⟨rest, hrest, hsplit⟩ := Option.bind_eq_some_iff.mp hsplit
    obtain ⟨htext, htag, hne, hline⟩ := splitArgs_eq_some hsplit
    have hname : rest = String.ofList tagChars ++ "_ARGS_" ++ String.ofList pathChars := by
      rw [← String.toList_inj, htext]
      simp only [String.toList_append, String.toList_ofList]
    refine ⟨?_, fun h => hempty (String.ofList_eq_empty_iff.mp h), by rwa [String.toList_ofList],
      fun h => hne (String.ofList_eq_empty_iff.mp h), by rwa [String.toList_ofList]⟩
    rw [stripPrefix_eq_some_iff.mp hrest, hname, String.append_assoc, String.append_assoc, String.append_assoc]
  · cases h

theorem matchPluginArgs_append {tag path : String} (htag : tag ≠ "") (hchars : ∀ c ∈ tag.toList, isVarChar c = true)
    (hpath : path ≠ "") (hline : '\n' ∉ path.toList) (hword : '_' ∉ path.toList) :
    matchPluginArgs ("PLUGINS_" ++ tag ++ "_ARGS_" ++ path) = some (tag, path) := by
  have hne : path.toList ≠ [] := fun h => hpath (String.toList_inj.mp h)
  have hsplit : (stripPrefix "PLUGINS_" ("PLUGINS_" ++ tag ++ "_ARGS_" ++ path)).bind (fun rest => splitArgs rest.toList) =
      some (tag.toList, path.toList) := by
    rw [String.append_assoc, String.append_assoc, stripPrefix_eq_some_iff.mpr rfl, Option.bind_some,
      String.toList_append, String.toList_append, ← List.append_assoc, splitArgs_append hchars hne hline hword]
  rw [matchPluginArgs, hsplit]
  cases hchars' : tag.toList with
  | nil => exact absurd (String.toList_inj.mp hchars') htag
  | cons c cs =>
    dsimp only
    rw [← hchars', String.ofList_toList, String.ofList_toList]

/-! ### Names that lead to an argument -/

theorem append_cons_inj_of_last {α : Type} [DecidableEq α] {a : α} {x x' z z' : List α} (hz : a ∉ z) (hz' : a ∉ z')
    (h : x ++ a :: z = x' ++ a :: z') : x = x' ∧ z = z' := by
  have hlast : ∀ {x z : List α}, a ∉ z → (x ++ a :: z).reverse.takeWhile (fun b => decide (b ≠ a)) = z.reverse := by
    intro x z hz
    have hall : ∀ b ∈ z.reverse, decide (b ≠ a) = true := by
      intro b hb
      exact decide_eq_true fun heq => hz (heq ▸ List.mem_reverse.mp hb)
    rw [List.reverse_append, List.reverse_cons, List.append_assoc, List.takeWhile_append_of_pos hall,
      List.singleton_append, List.takeWhile_cons_of_neg (by simp), List.append_nil]
  have hbehind : z = z' := by
    have hreverse := hlast (x := x) hz
    rw [h, hlast hz'] at hreverse
    exact (List.reverse_injective hreverse).symm
  subst hbehind
  exact ⟨List.append_cancel_right h, rfl⟩

section

variable (env : OverrideEnv) (upper : String → String)

/-- `PLUGINS_<TAG>_ARGS_<KEY>`. -/
def varName (tag k : String) : String := "PLUGINS_" ++ upper tag ++ "_ARGS_" ++ upper k

/-- Upper-casing neither makes nor removes underscores. -/
def KeepsUnderscores : Prop := ∀ s, '_' ∈ (upper s).toList ↔ '_' ∈ s.toList

/-- The upper-cased tag is in the characters of the pattern, and the first plugin with it is meant; the key is one word, no number, and in lower case. -/
structure Addressable (plugins : List PluginConfig) (i : Nat) (tag k : String) : Prop where
  tag_ne : upper tag ≠ ""
  tag_chars : ∀ c ∈ (upper tag).toList, isVarChar c = true
  first : (plugins.findIdx? fun p => normalizeIdentifier env p.effectiveName = normalizeIdentifier env (upper tag)) = some i
  key_ne : upper k ≠ ""
  key_line : '\n' ∉ (upper k).toList
  key_word : '_' ∉ k.toList
  key_text : parseUnsigned (2 ^ 64 - 1) (upper k) = none
  key_lower : normalizeIdentifier env (upper k) = k

theorem not_mem_normalizeIdentifier (s : String) : '_' ∉ (normalizeIdentifier env s).toList := by
  rw [normalizeIdentifier, String.toList_ofList, List.mem_map]
  rintro ⟨c, -, hc⟩
  split at hc
  · cases hc
  · contradiction

theorem parsePath_of_not_mem {path : String} (h : '_' ∉ path.toList) : parsePath env path = [parseSegment env path] := by
  rw [parsePath, List.splitOn_eq_singleton h, List.map_singleton, String.ofList_toList]

theorem length_parsePath (path : String) : (parsePath env path).length = path.toList.count '_' + 1 := by
  rw [parsePath, List.length_map, length_splitOn]

variable {env upper}

/-- A name leads to the argument of a key exactly if the tag and the key are such. -/
theorem addressed_varName_iff (hupper : KeepsUnderscores upper) {plugins : List PluginConfig} {i : Nat} {tag k : String} :
    addressed env plugins (varName upper tag k) = some (i, [.key k]) ↔ Addressable env upper plugins i tag k := by
  constructor
  · intro h
    obtain ⟨⟨tagRaw, pathRaw⟩, hmatch, hfound⟩ := Option.bind_eq_some_iff.mp h
    obtain ⟨j, hfirst, heq⟩ := Option.map_eq_some_iff.mp hfound
    obtain ⟨rfl, hpath⟩ := Prod.mk.inj heq
    obtain ⟨hname, htag, hchars, hne, hline⟩ := matchPluginArgs_eq_some hmatch
    have hword : '_' ∉ pathRaw.toList := by
      have hlength := length_parsePath env pathRaw
      rw [hpath, List.length_singleton] at hlength
      exact List.count_eq_zero.mp (by omega)
    rw [parsePath_of_not_mem env hword, List.singleton_inj, parseSegment] at hpath
    split at hpath
    · cases hpath
    · rename_i hindex
      have hkey := Segment.key.inj hpath
      have hkword : '_' ∉ k.toList := hkey ▸ not_mem_normalizeIdentifier env pathRaw
      have hsplit : tagRaw = upper tag ∧ pathRaw = upper k := by
        have hlast : ("PLUGINS_" ++ upper tag ++ "_ARGS").toList ++ '_' :: (upper k).toList =
            ("PLUGINS_" ++ tagRaw ++ "_ARGS").toList ++ '_' :: pathRaw.toList := by
          rw [varName, ← String.toList_inj] at hname
          simpa using hname
        obtain ⟨htags, hkeys⟩ := append_cons_inj_of_last (fun hmem => hkword ((hupper k).mp hmem)) hword hlast
        refine ⟨String.toList_inj.mp ?_, String.toList_inj.mp hkeys.symm⟩
        simpa using htags.symm
      obtain ⟨rfl, rfl⟩ := hsplit
      exact ⟨htag, hchars, hfirst, hne, hline, hkword, hindex, hkey⟩
  · intro h
    have hword : '_' ∉ (upper k).toList := fun hmem => h.key_word ((hupper k).mp hmem)
    rw [addressed, varName, matchPluginArgs_append h.tag_ne h.tag_chars h.key_ne h.key_line hword, Option.bind_some,
      h.first, Option.map_some, parsePath_of_not_mem env hword, parseSegment, h.key_text]
    dsimp only
    rw [h.key_lower]

end

end Lazydns
