import Lazydns.Plugin.Env

/-!
# Names with and without a trailing dot

Names are compared after their trailing dots are cut off and their letters lowered. Lowering leaves dots alone, which is all that is assumed of it.
-/

namespace Lazydns

def EndsWithDot (s : String) : Prop := s.toList.getLast? = some '.'

instance (s : String) : Decidable (EndsWithDot s) := inferInstanceAs (Decidable (_ = _))

theorem trimEndDots_of_not {s : String} (h : ¬EndsWithDot s) : trimEndDots s = s := by
  rw [EndsWithDot, ← List.head?_reverse] at h
  have hdrop : s.toList.reverse.dropWhile (· = '.') = s.toList.reverse := by
    cases hs : s.toList.reverse with
    | nil => rfl
    | cons c cs =>
      rw [hs, List.head?_cons] at h
      rw [List.dropWhile_cons, if_neg]
      rw [decide_eq_true_iff]
      exact fun hc => h (congrArg some hc)
  rw [trimEndDots, hdrop, List.reverse_reverse, String.ofList_toList]

theorem not_endsWithDot_trimEndDots (s : String) : ¬EndsWithDot (trimEndDots s) := by
  rw [EndsWithDot, trimEndDots, String.toList_ofList, List.getLast?_reverse]
  intro h
  have hhead := List.head?_dropWhile_not (fun c => decide (c = '.')) s.toList.reverse
  rw [h] at hhead
  exact absurd hhead (by decide)

/-- What is assumed of `str::to_lowercase`: a dot at the end stays one, and no other letter becomes one. -/
structure KeepsDots (toLowercase : String → String) : Prop where
  push : ∀ s, toLowercase (s.push '.') = (toLowercase s).push '.'
  last : ∀ s, EndsWithDot (toLowercase s) → EndsWithDot s

/-- What is assumed of it where text is lowered more than once: lowered text stays as it is, also with one more lower-case letter, none is lost altogether, and colons are kept. -/
structure LowersLetters (toLowercase : String → String) : Prop extends KeepsDots toLowercase where
  idem : ∀ s, toLowercase (toLowercase s) = toLowercase s
  pushLetter : ∀ s, toLowercase s = s → toLowercase (s.push 'a') = s.push 'a'
  ne_empty : ∀ s, s ≠ "" → toLowercase s ≠ ""
  colons : ∀ s, (toLowercase s).toList.count ':' = s.toList.count ':'

theorem endsWithDot_push (s : String) : EndsWithDot (s.push '.') := by
  rw [EndsWithDot, String.toList_push, List.getLast?_concat]

/-- A name that ends with a dot, without it. -/
theorem exists_push_of_endsWithDot {s : String} (h : EndsWithDot s) : ∃ t : String, s = t.push '.' := by
  obtain ⟨cs, hcs⟩ := List.getLast?_eq_some_iff.mp h
  refine ⟨String.ofList cs, String.toList_inj.mp ?_⟩
  rw [String.toList_push, String.toList_ofList, hcs]

namespace KeepsDots

variable {toLowercase : String → String} (h : KeepsDots toLowercase)

include h

theorem endsWithDot_iff (s : String) : EndsWithDot (toLowercase s) ↔ EndsWithDot s := by
  refine ⟨h.last s, fun hdot => ?_⟩
  obtain ⟨t, rfl⟩ := exists_push_of_endsWithDot hdot
  rw [h.push]
  exact endsWithDot_push _

end KeepsDots

/-! ### Lowering ASCII letters -/

/-- What is not lowered to a letter has not been lowered. -/
theorem eq_of_toLower {c d : Char} (h : c.toLower = d) (hd : d.toNat < 97) : c = d := by
  rw [Char.toLower.eq_def] at h
  split at h
  · rename_i hupper
    have hval : (c.val + 32).toNat = d.toNat := congrArg (fun d => d.val.toNat) h
    have hlow : 65 ≤ c.val.toNat := hupper.1
    have hhigh : c.val.toNat ≤ 90 := hupper.2
    have h32 : (32 : UInt32).toNat = 32 := rfl
    rw [UInt32.toNat_add, h32] at hval
    omega
  · exact h

theorem toLower_eq_iff {d : Char} (hd : d.toNat < 97) (hself : d.toLower = d) (c : Char) : c.toLower = d ↔ c = d := by
  refine ⟨fun h => eq_of_toLower h hd, ?_⟩
  rintro rfl
  exact hself

theorem toLower_toLower (c : Char) : c.toLower.toLower = c.toLower := by
  by_cases hupper : c.val ≥ 'A'.val ∧ c.val ≤ 'Z'.val
  · have hlow : 65 ≤ c.val.toNat := hupper.1
    have hhigh : c.val.toNat ≤ 90 := hupper.2
    have hval : c.toLower.val.toNat = c.val.toNat + 32 := by
      have h32 : (c.val + 32).toNat = c.val.toNat + 32 := by
        rw [UInt32.toNat_add, show (32 : UInt32).toNat = 32 from rfl]
        omega
      rw [Char.toLower.eq_def, dif_pos hupper]
      exact h32
    have hnot : ¬(c.toLower.val ≥ 'A'.val ∧ c.toLower.val ≤ 'Z'.val) := by
      rintro ⟨-, hle⟩
      have hle' : c.toLower.val.toNat ≤ 90 := hle
      omega
    rw [Char.toLower.eq_def c.toLower, dif_neg hnot]
  · have hself : c.toLower = c := by rw [Char.toLower.eq_def, dif_neg hupper]
    rw [hself, hself]

/-- What lowering does to ASCII text. -/
def asciiLowercase (s : String) : String := String.ofList (s.toList.map Char.toLower)

theorem toList_asciiLowercase (s : String) : (asciiLowercase s).toList = s.toList.map Char.toLower :=
  String.toList_ofList

theorem count_map_toLower {d : Char} (hd : d.toNat < 97) (hself : d.toLower = d) (cs : List Char) :
    (cs.map Char.toLower).count d = cs.count d := by
  rw [List.count, List.countP_map]
  refine List.countP_congr fun c _ => ?_
  rw [Function.comp, beq_iff_eq, beq_iff_eq, toLower_eq_iff hd hself]

theorem lowersLetters_asciiLowercase : LowersLetters asciiLowercase where
  push s := by
    rw [← String.toList_inj, String.toList_push, toList_asciiLowercase, toList_asciiLowercase, String.toList_push,
      List.map_append]
    rfl
  last s h := by
    rw [EndsWithDot, toList_asciiLowercase, List.getLast?_map, Option.map_eq_some_iff] at h
    obtain ⟨c, hc, hdot⟩ := h
    rw [EndsWithDot, hc, eq_of_toLower hdot (by decide)]
  idem s := by
    rw [← String.toList_inj, toList_asciiLowercase, toList_asciiLowercase, List.map_map]
    exact List.map_congr_left fun c _ => toLower_toLower c
  pushLetter s h := by
    rw [← String.toList_inj, toList_asciiLowercase] at h
    rw [← String.toList_inj, toList_asciiLowercase, String.toList_push, List.map_append, h]
    rfl
  ne_empty s h hempty := by
    rw [← String.toList_inj, toList_asciiLowercase, String.toList_empty, List.map_eq_nil_iff] at hempty
    exact h (String.toList_inj.mp hempty)
  colons s := by
    rw [toList_asciiLowercase, count_map_toLower (by decide) (by decide)]

end Lazydns
