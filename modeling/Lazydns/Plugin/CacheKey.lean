import Lazydns.Plugin.Cache
import Mathlib.Data.List.Basic
import Std.Data.String.ToNat

/-!
# What a cache key tells

The key is text, but nothing in it runs together: the type, the class and the flags are decimal numbers behind the last three colons, so equal keys mean equal names up to letter case, equal types and classes, and equal AD, CD and DO bits.
-/

namespace Lazydns

open Dns

namespace CachePlugin

/-- Two texts with the same part after their last colon, which is `sep`, have the same part before it. -/
theorem append_sep_inj {sep : Char} {l l' r r' : List Char} (hr : sep ∉ r) (hr' : sep ∉ r')
    (h : l ++ sep :: r = l' ++ sep :: r') : l = l' ∧ r = r' := by
  rcases List.append_eq_append_iff.mp h with ⟨mid, rfl, htail⟩ | ⟨mid, rfl, htail⟩
  · cases mid with
    | nil => exact ⟨(List.append_nil l).symm, (List.cons.inj htail).2⟩
    | cons c mid =>
      rw [List.cons_append] at htail
      exact absurd ((List.cons.inj htail).2 ▸ List.mem_append_right _ List.mem_cons_self) hr
  · cases mid with
    | nil => exact ⟨List.append_nil l', ((List.cons.inj htail).2).symm⟩
    | cons c mid =>
      rw [List.cons_append] at htail
      exact absurd ((List.cons.inj htail).2 ▸ List.mem_append_right _ List.mem_cons_self) hr'

theorem colon_not_mem_repr (n : Nat) : ':' ∉ (toString n).toList := by
  intro hmem
  change ':' ∈ n.repr.toList at hmem
  rw [Nat.toList_repr] at hmem
  exact absurd (Nat.isDigit_of_mem_toDigits (by decide) (by decide) hmem) (by decide)

theorem append_number_inj {s s' : String} {n n' : Nat}
    (h : s ++ ":" ++ toString n = s' ++ ":" ++ toString n') : s = s' ∧ n = n' := by
  have hlist := congrArg String.toList h
  simp only [String.toList_append, List.append_assoc] at hlist
  obtain ⟨hs, hn⟩ := append_sep_inj (colon_not_mem_repr n) (colon_not_mem_repr n') hlist
  exact ⟨String.toList_inj.mp hs, Nat.repr_injective (String.toList_inj.mp hn)⟩

/-- The three flag bits are the decimal digits of a number, each of them on its own. -/
private theorem flagBits_inj : ∀ a c d a' c' d' : Bool,
    (if a then 1 else 0) + (if c then 2 else 0) + (if d then 4 else 0) =
      (if a' then 1 else 0) + (if c' then 2 else 0) + (if d' then 4 else 0) →
    a = a' ∧ c = c' ∧ d = d' := by
  decide

theorem keyFlags_inj {m m' : Message} (h : keyFlags m = keyFlags m') :
    m.ad = m'.ad ∧ m.cd = m'.cd ∧ hasDo m = hasDo m' :=
  flagBits_inj _ _ _ _ _ _ h

theorem hasDo_iff {m : Message} : hasDo m = true ↔ ∃ rr ∈ m.additional, ∃ code version flags options,
    rr.rdata = .OPT code version flags options ∧ flags &&& 0x8000 ≠ 0 := by
  rw [hasDo, List.any_eq_true]
  refine exists_congr fun rr => and_congr_right fun _ => ?_
  cases rr.rdata <;> simp

/-- The part of a message that its cache key tells apart. Some OPT record has the DO bit in both or in neither. -/
structure SameKeyFields (env : Env) (m m' : Message) : Prop where
  question : ∃ q q', m.questions.head? = some q ∧ m'.questions.head? = some q' ∧
    env.toLowercase q.qname = env.toLowercase q'.qname ∧ q.qtype.toU16 = q'.qtype.toU16 ∧
    q.qclass.toU16 = q'.qclass.toU16
  ad : m.ad = m'.ad
  cd : m.cd = m'.cd
  dnssecOk :
    (∃ rr ∈ m.additional, ∃ code version flags options,
      rr.rdata = .OPT code version flags options ∧ flags &&& 0x8000 ≠ 0) ↔
    ∃ rr ∈ m'.additional, ∃ code version flags options,
      rr.rdata = .OPT code version flags options ∧ flags &&& 0x8000 ≠ 0

theorem SameKeyFields.hasDo {env : Env} {m m' : Message} (h : SameKeyFields env m m') :
    CachePlugin.hasDo m = CachePlugin.hasDo m' := by
  rw [Bool.eq_iff_iff, hasDo_iff, hasDo_iff]
  exact h.dnssecOk

theorem sameKeyFields_of_makeKey {env : Env} {m m' : Message} {key : String}
    (h : makeKey env m = some key) (h' : makeKey env m' = some key) : SameKeyFields env m m' := by
  obtain ⟨q, hq, hkey⟩ := Option.map_eq_some_iff.mp h
  obtain ⟨q', hq', hkey'⟩ := Option.map_eq_some_iff.mp h'
  obtain ⟨hclass, hflags⟩ := append_number_inj (hkey.trans hkey'.symm)
  obtain ⟨htype, hclass⟩ := append_number_inj hclass
  obtain ⟨hname, htype⟩ := append_number_inj htype
  obtain ⟨had, hcd, hdo⟩ := keyFlags_inj hflags
  refine ⟨⟨q, q', hq, hq', hname, UInt16.toNat_inj.mp htype, UInt16.toNat_inj.mp hclass⟩, had, hcd, ?_⟩
  rw [← hasDo_iff, ← hasDo_iff, hdo]

theorem makeKey_eq_of_sameKeyFields {env : Env} {m m' : Message} (h : SameKeyFields env m m') :
    makeKey env m = makeKey env m' := by
  obtain ⟨q, q', hq, hq', hname, htype, hclass⟩ := h.question
  rw [makeKey, makeKey, hq, hq', Option.map_some, Option.map_some, hname, htype, hclass, keyFlags,
    keyFlags, h.ad, h.cd, h.hasDo]

end CachePlugin

end Lazydns
