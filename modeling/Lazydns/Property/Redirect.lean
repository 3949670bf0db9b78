import Lazydns.Plugin.Edit
import Lazydns.Plugin.Names
import Lazydns.Server.Service

/-!
# Redirecting label by label

A name is written as its labels with dots between them; a dot within a label is escaped by a backslash. A rule `*.S` is meant for `S` and for the names `p.S` with one or more whole labels `p`, a rule without a star for one name, and letter case makes no difference to which rule applies.
-/

namespace Lazydns

open Dns

def capitalSigma : Char := Char.ofNat 0x3A3

/-- What is assumed of `str::to_lowercase`: dots stay dots and no other letter becomes one, and so for the star of a wildcard. But for a capital sigma, whose lower case depends on what is around it, the parts of a text are lowered each by itself. -/
structure LowersLabels (toLowercase : String → String) : Prop where
  join : ∀ p s : String, capitalSigma ∉ (p ++ "." ++ s).toList →
    toLowercase (p ++ "." ++ s) = toLowercase p ++ "." ++ toLowercase s
  dots : ∀ s, (toLowercase s).toList.count '.' = s.toList.count '.'
  leading : ∀ s, (stripPrefix "." (toLowercase s)).isSome = (stripPrefix "." s).isSome
  wildcard : ∀ s, stripPrefix "*." (toLowercase s) = (stripPrefix "*." s).map toLowercase

/-! ### Texts with dots -/

private theorem append_dot_cancel {a b x y : List Char} (h : a ++ '.' :: x = b ++ '.' :: y)
    (hcount : a.count '.' = b.count '.') : a = b ∧ x = y := by
  induction a generalizing b with
  | nil =>
    cases b with
    | nil => exact ⟨rfl, (List.cons.inj h).2⟩
    | cons c b =>
      obtain ⟨rfl, -⟩ := List.cons.inj h
      simp at hcount
  | cons c a ih =>
    cases b with
    | nil =>
      obtain ⟨rfl, -⟩ := List.cons.inj h
      simp at hcount
    | cons d b =>
      obtain ⟨rfl, hrest⟩ := List.cons.inj h
      rw [List.count_cons, List.count_cons, Nat.add_right_cancel_iff] at hcount
      obtain ⟨rfl, rfl⟩ := ih hrest hcount
      exact ⟨rfl, rfl⟩

theorem toList_join (p s : String) : (p ++ "." ++ s).toList = p.toList ++ '.' :: s.toList := by
  rw [String.toList_append, String.toList_append]
  simp

theorem join_cancel {p p' s s' : String} (h : p ++ "." ++ s = p' ++ "." ++ s')
    (hcount : p.toList.count '.' = p'.toList.count '.') : p = p' ∧ s = s' := by
  rw [← String.toList_inj, toList_join, toList_join] at h
  obtain ⟨hp, hs⟩ := append_dot_cancel h hcount
  exact ⟨String.toList_inj.mp hp, String.toList_inj.mp hs⟩

theorem exists_join_of_lt {s : String} {n : Nat} (h : n < s.toList.count '.') :
    ∃ p t : String, s = p ++ "." ++ t ∧ p.toList.count '.' = n := by
  suffices hlist : ∃ p t : List Char, s.toList = p ++ '.' :: t ∧ p.count '.' = n by
    obtain ⟨p, t, hs, hn⟩ := hlist
    refine ⟨String.ofList p, String.ofList t, ?_, by rwa [String.toList_ofList]⟩
    rw [← String.toList_inj, toList_join, hs, String.toList_ofList, String.toList_ofList]
  induction hs : s.toList generalizing s n with
  | nil =>
    rw [hs] at h
    cases h
  | cons c cs ih =>
    rw [hs, List.count_cons] at h
    by_cases hc : c = '.'
    · subst hc
      cases n with
      | zero => exact ⟨[], cs, rfl, rfl⟩
      | succ n =>
        have hn : n < (String.ofList cs).toList.count '.' := by
          rw [String.toList_ofList]
          simpa using h
        obtain ⟨p, t, hcs, hcount⟩ := ih hn (String.toList_ofList ..)
        exact ⟨'.' :: p, t, by rw [hcs, List.cons_append], by rw [List.count_cons_self, hcount]⟩
    · have hn : n < (String.ofList cs).toList.count '.' := by
        rw [String.toList_ofList]
        simpa [hc] using h
      obtain ⟨p, t, hcs, hcount⟩ := ih hn (String.toList_ofList ..)
      exact ⟨c :: p, t, by rw [hcs, List.cons_append], by rw [List.count_cons_of_ne hc, hcount]⟩

namespace LowersLabels

variable {lower : String → String} (h : LowersLabels lower)

include h

theorem exists_join {name a b : String} (hname : capitalSigma ∉ name.toList) (hlower : lower name = a ++ "." ++ b) :
    ∃ p s, name = p ++ "." ++ s ∧ lower p = a ∧ lower s = b := by
  have hlt : a.toList.count '.' < name.toList.count '.' := by
    rw [← h.dots name, hlower, toList_join, List.count_append, List.count_cons_self]
    omega
  obtain ⟨p, s, rfl, hcount⟩ := exists_join_of_lt hlt
  rw [h.join p s hname] at hlower
  obtain ⟨hp, hs⟩ := join_cancel hlower ((h.dots p).trans hcount)
  exact ⟨p, s, rfl, hp, hs⟩

theorem join_unique {p p' s s' : String} (hsplit : p ++ "." ++ s = p' ++ "." ++ s') (hs : lower s = lower s') :
    p = p' := by
  have hcount : s.toList.count '.' = s'.toList.count '.' := by
    rw [← h.dots s, ← h.dots s', hs]
  have htotal := congrArg (fun name => name.toList.count '.') hsplit
  simp only [toList_join, List.count_append, List.count_cons_self] at htotal
  exact (join_cancel hsplit (by omega)).1

end LowersLabels

private theorem eq_of_map_toLower {l p : List Char} (hp : ∀ c ∈ p, c.toNat < 97) (h : l.map Char.toLower = p) : l = p := by
  induction l generalizing p with
  | nil => exact h
  | cons c l ih =>
    subst h
    rw [List.map_cons, List.forall_mem_cons] at hp
    have hc : c = c.toLower := eq_of_toLower rfl hp.1
    have hl := ih hp.2 rfl
    rw [List.map_cons, ← hc, ← hl]

theorem stripPrefix_asciiLowercase {p : String} (hp : p.toList.all fun c => c.toNat < 97)
    (hself : p.toList.map Char.toLower = p.toList) (s : String) :
    stripPrefix p (asciiLowercase s) = (stripPrefix p s).map asciiLowercase := by
  refine Option.ext fun t => ?_
  rw [stripPrefix_eq_some_iff, Option.map_eq_some_iff]
  constructor
  · intro hs
    rw [← String.toList_inj, toList_asciiLowercase, String.toList_append, List.map_eq_append_iff] at hs
    obtain ⟨l, u, hsplit, hl, hu⟩ := hs
    obtain rfl := eq_of_map_toLower (fun c hc => of_decide_eq_true (List.all_eq_true.mp hp c hc)) hl
    refine ⟨String.ofList u, ?_, ?_⟩
    · rw [stripPrefix_eq_some_iff, ← String.toList_inj, String.toList_append, String.toList_ofList, hsplit]
    · rw [← String.toList_inj, toList_asciiLowercase, String.toList_ofList, hu]
  · rintro ⟨u, hu, rfl⟩
    rw [stripPrefix_eq_some_iff] at hu
    rw [hu, ← String.toList_inj, toList_asciiLowercase, String.toList_append, String.toList_append, List.map_append,
      hself, toList_asciiLowercase]

theorem lowersLabels_asciiLowercase : LowersLabels asciiLowercase where
  join p s _ := by
    rw [← String.toList_inj, toList_join, toList_asciiLowercase, toList_asciiLowercase, toList_asciiLowercase,
      toList_join, List.map_append, List.map_cons]
    rfl
  dots s := by rw [toList_asciiLowercase, count_map_toLower (by decide) (by decide)]
  leading s := by rw [stripPrefix_asciiLowercase (by decide) (by decide), Option.isSome_map]
  wildcard s := stripPrefix_asciiLowercase (by decide) (by decide) s

/-! ### What a rule is meant for -/

/-- One or more labels, the last of which does not end in the middle of an escape. -/
def WholeLabels (p : String) : Prop := p ≠ "" ∧ (p.toList.reverse.takeWhile (· = '\\')).length % 2 = 0

instance (p : String) : Decidable (WholeLabels p) := inferInstanceAs (Decidable (_ ∧ _))

namespace RedirectRule

variable (lower : String → String)

/-- What a rule is meant to make of a name. -/
inductive Rewrites (r : RedirectRule) : String → String → Prop
  | exact {name : String} (hsource : stripPrefix "*." r.source = none) (hname : lower name = lower r.source) :
    r.Rewrites name r.target
  | bare {suffix name : String} (hsource : stripPrefix "*." r.source = some suffix)
    (hname : lower name = lower suffix) : r.Rewrites name ((stripPrefix "*." r.target).getD r.target)
  | under {suffix p s : String} (hsource : stripPrefix "*." r.source = some suffix) (hs : lower s = lower suffix)
    (hp : WholeLabels p) :
    r.Rewrites (p ++ "." ++ s) (((stripPrefix "*." r.target).map fun t => p ++ "." ++ t).getD r.target)

/-- If the rule is `*.suffix` and the name ends like it, only whole labels are before the suffix; and what the target `*.t` is put together with is in lower case, as `t` is, which has no dot in front. -/
structure LabelWise (r : RedirectRule) (name : String) : Prop where
  whole : ∀ suffix p s, stripPrefix "*." r.source = some suffix → name = p ++ "." ++ s → lower s = lower suffix →
    WholeLabels p
  under : ∀ suffix p s t, stripPrefix "*." r.source = some suffix → name = p ++ "." ++ s → lower s = lower suffix →
    stripPrefix "*." r.target = some t → lower p = p ∧ lower t = t ∧ stripPrefix "." t = none
  bare : ∀ suffix t, stripPrefix "*." r.source = some suffix → lower name = lower suffix →
    stripPrefix "*." r.target = some t → lower t = t

/-! ### What it does -/

variable {lower} {env : Env} {r : RedirectRule} {name suffix t : String}

theorem matchesName_exact (h : LowersLabels env.toLowercase) (hsource : stripPrefix "*." r.source = none) :
    r.matchesName env name ↔ env.toLowercase name = env.toLowercase r.source := by
  simp [matchesName, h.wildcard, hsource]

theorem matchesName_wildcard (h : LowersLabels env.toLowercase) (hname : capitalSigma ∉ name.toList)
    (hsource : stripPrefix "*." r.source = some suffix) :
    r.matchesName env name ↔ env.toLowercase name = env.toLowercase suffix ∨
      ∃ p s, name = p ++ "." ++ s ∧ env.toLowercase s = env.toLowercase suffix := by
  simp only [matchesName, h.wildcard, hsource, Option.map_some, Bool.or_eq_true, beq_iff_eq]
  refine or_congr_right ?_
  rw [Option.isSome_iff_exists]
  constructor
  · rintro ⟨a, ha⟩
    rw [stripSuffix_eq_some_iff, ← String.append_assoc] at ha
    obtain ⟨p, s, hsplit, -, hs⟩ := h.exists_join hname ha
    exact ⟨p, s, hsplit, hs⟩
  · rintro ⟨p, s, rfl, hs⟩
    refine ⟨env.toLowercase p, ?_⟩
    rw [stripSuffix_eq_some_iff, h.join p s hname, hs, String.append_assoc]

theorem apply_fixed (h : LowersLabels env.toLowercase)
    (hfixed : stripPrefix "*." r.source = none ∨ stripPrefix "*." r.target = none) : r.apply env name = r.target := by
  simp only [apply, h.wildcard]
  rcases hfixed with hnone | hnone
  · rw [hnone]
    rfl
  · rw [hnone]
    cases stripPrefix "*." r.source <;> rfl

theorem apply_bare (h : LowersLabels env.toLowercase) (hsource : stripPrefix "*." r.source = some suffix)
    (htarget : stripPrefix "*." r.target = some t) (hname : env.toLowercase name = env.toLowercase suffix) :
    r.apply env name = env.toLowercase t := by
  have hsuffix : stripSuffix (env.toLowercase suffix) (env.toLowercase suffix) = some "" := by
    rw [stripSuffix_eq_some_iff, String.empty_append]
  have hempty : stripSuffix "." "" = none := by decide
  simp only [apply, h.wildcard, hsource, htarget, Option.map_some, hname, hsuffix, hempty, String.empty_append]

theorem apply_under (h : LowersLabels env.toLowercase) {p s : String} (hname : capitalSigma ∉ (p ++ "." ++ s).toList)
    (hsource : stripPrefix "*." r.source = some suffix) (htarget : stripPrefix "*." r.target = some t)
    (hs : env.toLowercase s = env.toLowercase suffix) :
    r.apply env (p ++ "." ++ s) =
      if (stripPrefix "." t).isSome then env.toLowercase p ++ env.toLowercase t
      else env.toLowercase p ++ "." ++ env.toLowercase t := by
  have hkept : stripSuffix (env.toLowercase suffix) (env.toLowercase (p ++ "." ++ s)) =
      some (env.toLowercase p ++ ".") := by
    rw [stripSuffix_eq_some_iff, h.join p s hname, hs]
  have hdot : stripSuffix "." (env.toLowercase p ++ ".") = some (env.toLowercase p) := by
    rw [stripSuffix_eq_some_iff]
  simp only [apply, h.wildcard, hsource, htarget, Option.map_some, hkept, hdot, h.leading]

theorem Rewrites.matchesName (h : LowersLabels env.toLowercase) {new : String} (hname : capitalSigma ∉ name.toList)
    (hrewrites : r.Rewrites env.toLowercase name new) : r.matchesName env name := by
  cases hrewrites with
  | exact hsource hsame => exact (matchesName_exact h hsource).mpr hsame
  | bare hsource hsame => exact (matchesName_wildcard h hname hsource).mpr (.inl hsame)
  | under hsource hs hp => exact (matchesName_wildcard h hname hsource).mpr (.inr ⟨_, _, rfl, hs⟩)

theorem not_bare_and_under (h : LowersLabels env.toLowercase) {p s : String}
    (hname : capitalSigma ∉ (p ++ "." ++ s).toList) (hs : env.toLowercase s = env.toLowercase suffix) :
    env.toLowercase (p ++ "." ++ s) ≠ env.toLowercase suffix := by
  intro hbare
  rw [h.join p s hname, ← hs, ← String.toList_inj, toList_join] at hbare
  have hlength := congrArg List.length hbare
  simp only [List.length_append, List.length_cons] at hlength
  omega

/-- Where the condition is met, a rule that is used for a name is meant for it, and does what it is meant to do. -/
theorem LabelWise.apply_eq (h : LowersLabels env.toLowercase) (hname : capitalSigma ∉ name.toList)
    (hwise : r.LabelWise env.toLowercase name) (hmatch : r.matchesName env name) :
    r.Rewrites env.toLowercase name (r.apply env name) := by
  cases hsource : stripPrefix "*." r.source with
  | none =>
    rw [apply_fixed h (.inl hsource)]
    exact .exact hsource ((matchesName_exact h hsource).mp hmatch)
  | some suffix =>
    rcases (matchesName_wildcard h hname hsource).mp hmatch with hbare | ⟨p, s, rfl, hs⟩
    · have hrewrites : r.Rewrites env.toLowercase name _ := .bare hsource hbare
      cases htarget : stripPrefix "*." r.target with
      | none =>
        rw [htarget] at hrewrites
        rwa [apply_fixed h (.inr htarget)]
      | some t =>
        rw [htarget] at hrewrites
        rwa [apply_bare h hsource htarget hbare, hwise.bare suffix t hsource hbare htarget]
    · have hrewrites : r.Rewrites env.toLowercase (p ++ "." ++ s) _ :=
        .under hsource hs (hwise.whole suffix p s hsource rfl hs)
      cases htarget : stripPrefix "*." r.target with
      | none =>
        rw [htarget] at hrewrites
        rwa [apply_fixed h (.inr htarget)]
      | some t =>
        rw [htarget] at hrewrites
        obtain ⟨hp, ht, hnodot⟩ := hwise.under suffix p s t hsource rfl hs htarget
        rwa [apply_under h hname hsource htarget hs, hnodot, hp, ht]

theorem Rewrites.unique (h : LowersLabels env.toLowercase) (hname : capitalSigma ∉ name.toList) {new new' : String}
    (hnew : r.Rewrites env.toLowercase name new) (hnew' : r.Rewrites env.toLowercase name new') : new = new' := by
  cases hnew with
  | exact hsource hsame =>
    cases hnew' with
    | exact => rfl
    | bare hsource' => rw [hsource] at hsource'; cases hsource'
    | under hsource' => rw [hsource] at hsource'; cases hsource'
  | bare hsource hsame =>
    cases hnew' with
    | exact hsource' => rw [hsource] at hsource'; cases hsource'
    | bare => rfl
    | under hsource' hs =>
      obtain rfl := Option.some.inj (hsource.symm.trans hsource')
      exact absurd hsame (not_bare_and_under h hname hs)
  | @under suffix p s hsource hs hp =>
    generalize hsplit : p ++ "." ++ s = name at hnew'
    cases hnew' with
    | exact hsource' => rw [hsource] at hsource'; cases hsource'
    | bare hsource' hsame =>
      obtain rfl := Option.some.inj (hsource.symm.trans hsource')
      subst hsplit
      exact absurd hsame (not_bare_and_under h hname hs)
    | @under suffix' p' s' hsource' hs' hp' =>
      obtain rfl := Option.some.inj (hsource.symm.trans hsource')
      obtain rfl := h.join_unique hsplit (hs.trans hs'.symm)
      rfl

/-- Nothing else than the condition makes it so. -/
theorem labelWise_of_rewrites (h : LowersLabels env.toLowercase) (hname : capitalSigma ∉ name.toList)
    (hrewrites : r.Rewrites env.toLowercase name (r.apply env name)) : r.LabelWise env.toLowercase name := by
  generalize hnew : r.apply env name = new at hrewrites
  cases hrewrites with
  | exact hsource hsame =>
    constructor
    · intro suffix p s hsource'
      rw [hsource] at hsource'
      cases hsource'
    · intro suffix p s t hsource'
      rw [hsource] at hsource'
      cases hsource'
    · intro suffix t hsource'
      rw [hsource] at hsource'
      cases hsource'
  | @bare suffix _ hsource hsame =>
    constructor
    · intro suffix' p s hsource' hsplit hs
      obtain rfl := Option.some.inj (hsource.symm.trans hsource')
      subst hsplit
      exact absurd hsame (not_bare_and_under h hname hs)
    · intro suffix' p s t hsource' hsplit hs
      obtain rfl := Option.some.inj (hsource.symm.trans hsource')
      subst hsplit
      exact absurd hsame (not_bare_and_under h hname hs)
    · intro suffix' t _ _ htarget
      rw [apply_bare h hsource htarget hsame, htarget] at hnew
      exact hnew
  | @under suffix p s hsource hs hp =>
    have hsame : ∀ suffix' p' s', stripPrefix "*." r.source = some suffix' → p ++ "." ++ s = p' ++ "." ++ s' →
        env.toLowercase s' = env.toLowercase suffix' → p' = p := by
      intro suffix' p' s' hsource' hsplit hs'
      obtain rfl := Option.some.inj (hsource.symm.trans hsource')
      exact (h.join_unique hsplit (hs.trans hs'.symm)).symm
    constructor
    · intro suffix' p' s' hsource' hsplit hs'
      rw [hsame suffix' p' s' hsource' hsplit hs']
      exact hp
    · intro suffix' p' s' t hsource' hsplit hs' htarget
      obtain rfl := hsame suffix' p' s' hsource' hsplit hs'
      rw [apply_under h hname hsource htarget hs, htarget] at hnew
      change (if _ then _ else _) = p' ++ "." ++ t at hnew
      cases hdot : stripPrefix "." t with
      | none =>
        rw [hdot] at hnew
        obtain ⟨hp', ht⟩ := join_cancel hnew (h.dots p')
        exact ⟨hp', ht, rfl⟩
      | some u =>
        -- a dot in front of the target is taken for the one that was there
        rw [hdot] at hnew
        have hcount : (env.toLowercase p' ++ env.toLowercase t).toList.count '.' =
            (p' ++ "." ++ t).toList.count '.' := congrArg (fun name => name.toList.count '.') hnew
        rw [String.toList_append, toList_join, List.count_append, List.count_append, List.count_cons_self,
          h.dots, h.dots] at hcount
        omega
    · intro suffix' t hsource' hbare
      obtain rfl := Option.some.inj (hsource.symm.trans hsource')
      exact absurd hbare (not_bare_and_under h hname hs)

end RedirectRule

/-! ### The plugin -/

namespace RedirectPlugin

variable {env : Env} {p : RedirectPlugin} {name : String} {r : RedirectRule}

/-- The rule is the first that is meant for the name. -/
def First (lower : String → String) (p : RedirectPlugin) (name : String) (r : RedirectRule) : Prop :=
  (∃ new, r.Rewrites lower name new) ∧
    ∃ before after, p.rules = before ++ r :: after ∧ ∀ r' ∈ before, ∀ new, ¬r'.Rewrites lower name new

/-- The first question gets the name that the first rule meant for it makes of its name; nothing else of the request changes, and nothing at all where no rule is meant for it. -/
structure Exact (env : Env) (p : RedirectPlugin) (ctx : Context) : Prop where
  rule : ∀ q ∈ ctx.request.questions.head?, ∀ r,
    p.rules.find? (·.matchesName env q.qname) = some r ↔ p.First env.toLowercase q.qname r
  renamed : ∀ q rest r new, ctx.request.questions = q :: rest → p.First env.toLowercase q.qname r →
    r.Rewrites env.toLowercase q.qname new →
    (p.execute env ctx).request = { ctx.request with questions := { q with qname := new } :: rest }
  kept : (∀ q ∈ ctx.request.questions.head?, ∀ r, ¬p.First env.toLowercase q.qname r) →
    (p.execute env ctx).request = ctx.request

theorem execute_request (env : Env) (p : RedirectPlugin) (ctx : Context) :
    (p.execute env ctx).request = { ctx.request with questions := p.rewriteFirst env ctx.request.questions } := by
  rw [execute]
  dsimp only
  by_cases hsame : p.rewriteFirst env ctx.request.questions = ctx.request.questions
  · rw [if_pos hsame]
  · rw [if_neg hsame]
    rfl

theorem rewrite_of_find? (hfind : p.rules.find? (·.matchesName env name) = some r) :
    p.rewrite env name = r.apply env name := by
  rw [rewrite, hfind]

/-- Where the rule that is used meets the condition, it is the first that is meant for the name. -/
theorem find?_eq_some_iff (h : LowersLabels env.toLowercase) (hname : capitalSigma ∉ name.toList)
    (hwise : ∀ r, p.rules.find? (·.matchesName env name) = some r → r.LabelWise env.toLowercase name) :
    p.rules.find? (·.matchesName env name) = some r ↔ p.First env.toLowercase name r := by
  constructor
  · intro hfind
    have hmeant := (hwise r hfind).apply_eq h hname (by simpa using List.find?_some hfind)
    obtain ⟨-, before, after, hrules, hbefore⟩ := List.find?_eq_some_iff_append.mp hfind
    refine ⟨⟨_, hmeant⟩, before, after, hrules, ?_⟩
    intro r' hr' new hrewrites
    have hnot := hbefore r' hr'
    rw [hrewrites.matchesName h hname] at hnot
    cases hnot
  · rintro ⟨⟨new, hrewrites⟩, before, after, hrules, hbefore⟩
    rw [hrules, List.find?_append] at hwise ⊢
    cases hfind : before.find? (·.matchesName env name) with
    | none =>
      rw [Option.none_or]
      exact List.find?_cons_of_pos (hrewrites.matchesName h hname)
    | some r' =>
      have hmeant := (hwise r' (by rw [hfind, Option.some_or])).apply_eq h hname (by simpa using List.find?_some hfind)
      exact absurd hmeant (hbefore r' (List.mem_of_find?_eq_some hfind) _)

theorem execute_cons {ctx : Context} {q : Question} {rest : List Question} (hquestions : ctx.request.questions = q :: rest) :
    (p.execute env ctx).request =
      { ctx.request with questions := { q with qname := p.rewrite env q.qname } :: rest } := by
  rw [execute_request, hquestions, rewriteFirst]

/-- Redirecting label by label needs the condition. -/
theorem Exact.labelWise (h : LowersLabels env.toLowercase) {ctx : Context} (hexact : p.Exact env ctx) {q : Question}
    {rest : List Question} (hquestions : ctx.request.questions = q :: rest) (hname : capitalSigma ∉ q.qname.toList)
    (hfind : p.rules.find? (·.matchesName env q.qname) = some r) : r.LabelWise env.toLowercase q.qname := by
  have hfirst := (hexact.rule q (by rw [hquestions]; rfl) r).mp hfind
  obtain ⟨new, hrewrites⟩ := hfirst.1
  have hnew := hexact.renamed q rest r new hquestions hfirst hrewrites
  rw [execute_cons hquestions, rewrite_of_find? hfind, Message.mk.injEq] at hnew
  have hsame : r.apply env q.qname = new := by simpa using hnew
  rw [← hsame] at hrewrites
  exact RedirectRule.labelWise_of_rewrites h hname hrewrites

theorem exact_of_labelWise (h : LowersLabels env.toLowercase) {ctx : Context} {q : Question} {rest : List Question}
    (hquestions : ctx.request.questions = q :: rest) (hname : capitalSigma ∉ q.qname.toList)
    (hwise : ∀ r, p.rules.find? (·.matchesName env q.qname) = some r → r.LabelWise env.toLowercase q.qname) :
    p.Exact env ctx where
  rule := by
    intro q' hq' r
    rw [hquestions] at hq'
    cases hq'
    exact find?_eq_some_iff h hname hwise
  renamed := by
    intro q' rest' r new hquestions' hfirst hrewrites
    obtain ⟨rfl, rfl⟩ := List.cons.inj (hquestions.symm.trans hquestions')
    have hfind := (find?_eq_some_iff h hname hwise).mpr hfirst
    have hmeant := (hwise r hfind).apply_eq h hname (by simpa using List.find?_some hfind)
    rw [execute_cons hquestions, rewrite_of_find? hfind, hmeant.unique h hname hrewrites]
  kept := by
    intro hnone
    have hfind : p.rules.find? (·.matchesName env q.qname) = none := by
      rw [Option.eq_none_iff_forall_not_mem]
      intro r hfind
      exact hnone q (by rw [hquestions]; rfl) r ((find?_eq_some_iff h hname hwise).mp hfind)
    rw [execute_cons hquestions, rewrite, hfind]
    dsimp only
    rw [← hquestions]

theorem exact_of_no_question {ctx : Context} (hquestions : ctx.request.questions = []) : p.Exact env ctx where
  rule := by
    rw [hquestions]
    nofun
  renamed := by
    rw [hquestions]
    nofun
  kept := by
    intro _
    rw [execute_request, hquestions, rewriteFirst, ← hquestions]

/-- Labels are `evil.old` and `com` in one query, and a target has a capital letter in the other. -/
theorem not_exact_escaped_and_capital :
    ¬(RedirectPlugin.mk [⟨"*.old.com", "*.new.com"⟩]).Exact (.answering (.error (.other "")))
      (.new (.ask 1 "evil\\.old.com" .A)) ∧
    ¬(RedirectPlugin.mk [⟨"*.old.com", "*.New.com"⟩]).Exact (.answering (.error (.other "")))
      (.new (.ask 1 "www.old.com" .A)) := by
  constructor
  · intro hexact
    have hwise := hexact.labelWise lowersLabels_asciiLowercase rfl (by decide +kernel) rfl
    have hwhole := hwise.whole "old.com" "evil\\" "old.com" (by decide +kernel) (by decide +kernel) rfl
    exact absurd hwhole (by decide +kernel)
  · intro hexact
    have hwise := hexact.labelWise lowersLabels_asciiLowercase rfl (by decide +kernel) rfl
    have hlower := hwise.under "old.com" "www" "old.com" "New.com" (by decide +kernel) (by decide +kernel) rfl
      (by decide +kernel)
    exact absurd hlower.2.1 (by decide +kernel)

/-- The plugin redirects label by label exactly if the rule that it uses meets the condition. -/
theorem exact_iff (h : LowersLabels env.toLowercase) {ctx : Context}
    (hname : ∀ q ∈ ctx.request.questions.head?, capitalSigma ∉ q.qname.toList) :
    p.Exact env ctx ↔ ∀ q ∈ ctx.request.questions.head?, ∀ r,
      p.rules.find? (·.matchesName env q.qname) = some r → r.LabelWise env.toLowercase q.qname := by
  cases hquestions : ctx.request.questions with
  | nil => exact ⟨nofun, fun _ => exact_of_no_question hquestions⟩
  | cons q rest =>
    rw [hquestions] at hname
    constructor
    · intro hexact q' hq' r hfind
      cases hq'
      exact hexact.labelWise h hquestions (hname q rfl) hfind
    · intro hwise
      exact exact_of_labelWise h hquestions (hname q rfl) (hwise q rfl)

theorem exact_iff_www :
    let p : RedirectPlugin := ⟨[⟨"*.old.com", "*.new.com"⟩]⟩
    let env : Env := .answering (.error (.other ""))
    let ctx : Context := .new (.ask 1 "www.OLD.com" .A)
    p.Exact env ctx ∧ (p.execute env ctx).request.questions = [⟨"www.new.com", .A, .IN⟩] := by
  intro p env ctx
  have hfound : p.rules.find? (·.matchesName env "www.OLD.com") = some ⟨"*.old.com", "*.new.com"⟩ := by decide +kernel
  have hsource : stripPrefix "*." "*.old.com" = some "old.com" := by decide +kernel
  have hwise : RedirectRule.LabelWise asciiLowercase ⟨"*.old.com", "*.new.com"⟩ "www.OLD.com" := by
    have hsplit : ∀ p s, "www.OLD.com" = p ++ "." ++ s → asciiLowercase s = asciiLowercase "old.com" → p = "www" := by
      intro p s hname hs
      have hlength : s.toList.length = 7 := by
        have hlower := congrArg (fun t => t.toList.length) hs
        simpa [toList_asciiLowercase] using hlower
      have hlist := congrArg String.toList hname
      rw [toList_join] at hlist
      have htotal := congrArg List.length hlist
      rw [List.length_append, List.length_cons, hlength] at htotal
      have hp : p.toList = "www".toList := (List.append_inj hlist.symm (by simpa using htotal.symm)).1
      exact String.toList_inj.mp hp
    constructor
    · rintro suffix p s hsuffix hname hs
      cases hsource.symm.trans hsuffix
      rw [hsplit p s hname hs]
      decide +kernel
    · rintro suffix p s t hsuffix hname hs htarget
      cases hsource.symm.trans hsuffix
      cases (by decide +kernel : stripPrefix "*." "*.new.com" = some "new.com").symm.trans htarget
      rw [hsplit p s hname hs]
      decide +kernel
    · rintro suffix t hsuffix hname htarget
      cases hsource.symm.trans hsuffix
      exact absurd hname (by decide +kernel)
  refine ⟨(exact_iff lowersLabels_asciiLowercase (by decide +kernel)).mpr ?_, by decide +kernel⟩
  intro q hq r hr
  cases hq
  cases hfound.symm.trans hr
  exact hwise

end RedirectPlugin

end Lazydns
