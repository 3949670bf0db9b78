import Lazydns.Plugin.CacheKey
import Lazydns.Server.Service

/-!
# Keys and queries

Two requests get one cache key exactly if they ask for the same: the same name up to letter case, the same numbers of type and class, and the same AD, CD and DO bits. Colons and digits in a name do not get in the way, since the three numbers are behind the last three colons.
-/

namespace Lazydns

open Dns

namespace CachePlugin

variable {m m' : Message}

theorem isSome_makeKey (env : Env) (h : m.questions ≠ []) : (makeKey env m).isSome := by
  obtain ⟨q, questions, hq⟩ := List.exists_cons_of_ne_nil h
  rw [makeKey, hq]
  rfl

/-- If a request has a question, its key is that of another request exactly if all that a key tells is the same. -/
theorem makeKey_eq_iff (env : Env) (hm : m.questions ≠ []) :
    makeKey env m = makeKey env m' ↔ SameKeyFields env m m' := by
  constructor
  · intro heq
    obtain ⟨key, hkey⟩ := Option.isSome_iff_exists.mp (isSome_makeKey env hm)
    exact sameKeyFields_of_makeKey hkey (heq ▸ hkey)
  · exact makeKey_eq_of_sameKeyFields

/-- One name in two spellings, and the type of an address by its number. -/
theorem makeKey_eq_iff_spelling :
    makeKey (.answering (.ok .new)) (.ask 1 "A:1.example" .A) =
      makeKey (.answering (.ok .new)) (.ask 2 "a:1.EXAMPLE" (.unknown 1)) := by
  refine (makeKey_eq_iff _ (by decide)).mpr ?_
  exact ⟨⟨_, _, rfl, rfl, by decide +kernel, rfl, rfl⟩, rfl, rfl, Iff.rfl⟩

end CachePlugin

end Lazydns
