import Lazydns.Plugin.CacheSpec
import Lazydns.Server.Service

/-!
# How long a cached answer lives

A stored response should be served for the least TTL of its records, with that TTL counting down, and no longer. The code takes the minimum over all records, the OPT pseudo-record included, writes the remaining time into all of them, and takes a minimum of `u32::MAX` for no records at all.
-/

namespace Lazydns

open Dns

namespace TtlLaw

/-! ### The law -/

/-- The least TTL of the records other than OPT, at least one second. -/
def leastTtl (m : Message) : Nat :=
  max 1 ((m.records.filter fun rr => rr.rtype ≠ .OPT).foldl (fun t rr => min t rr.ttl) U32_MAX)

/-- A response with the TTL of every record other than OPT set. -/
def withTtl (ttl : Nat) (m : Message) : Message :=
  m.mapRecords fun rr => if rr.rtype = .OPT then rr else { rr with ttl }

/-- What happens to a cache from one time to another while the entry under a key is neither replaced nor evicted: time passes, requests look up or store, expired entries are cleaned up, background jobs take their turns. -/
inductive Run (env : Env) (key : String) (t : Nat) (c : CachePlugin) : Nat → CachePlugin → Prop
  | start : Run env key t c t c
  | elapse {t' : Nat} {c' : CachePlugin} (h : Run env key t c t' c') (duration : Nat) :
      Run env key t c (t' + duration) c'
  | lookup {t' : Nat} {c' : CachePlugin} (h : Run env key t c t' c') {ctx : Context}
      (hresponse : ctx.response = none) : Run env key t c t' (c'.execute env t' ctx).2
  | store {t' : Nat} {c' : CachePlugin} (h : Run env key t c t' c') {ctx : Context}
      (hresponse : ctx.response ≠ none)
      (hkept : (c'.execute env t' ctx).2.cache.peek key = c'.cache.peek key) :
      Run env key t c t' (c'.execute env t' ctx).2
  | cleanup {t' : Nat} {c' : CachePlugin} (h : Run env key t c t' c') :
      Run env key t c t' (c'.cleanupExpired t')
  | background {t' : Nat} {c' c'' : CachePlugin} (h : Run env key t c t' c')
      (hcache : c''.cache = c'.cache) (hcacheTtl : c''.cacheTtl = c'.cacheTtl) : Run env key t c t' c''

/-- A request that looks up a key: it has no response yet and is no background refresh. -/
structure Asking (env : Env) (key : String) (ctx : Context) : Prop where
  key : CachePlugin.makeKey env ctx.request = some key
  response : ctx.response = none
  unmarked : ctx.getBool "response_from_cache" = none
  foreground : ctx.getBool "background_lazy_refresh" = none

/-- The TTL law for a response that a cache holds from a time on, in milliseconds, under a key. -/
def Law (env : Env) (key : String) (response : Message) (t₀ : Nat) (c : CachePlugin) : Prop :=
  ∀ t c' ctx, Run env key t₀ c t c' → Asking env key ctx →
    (t < t₀ + 1000 * leastTtl response →
      (c'.execute env t ctx).1.response =
        some { withTtl (leastTtl response - (t - t₀) / 1000) response with
          id := ctx.request.id
          questions := ctx.request.questions }) ∧
    (t₀ + 1000 * leastTtl response ≤ t → (c'.execute env t ctx).1.response = none)

/-! ### What the code does -/

section

variable {env : Env} {key : String} {t t' : Nat} {c c' : CachePlugin} {entry : CacheEntry} {ctx : Context}

/-- The cache holds an entry, or its time is over. -/
structure Alive (key : String) (entry : CacheEntry) (t : Nat) (c : CachePlugin) : Prop where
  cacheTtl : c.cacheTtl = none
  peek : c.cache.peek key = some entry ∨
    c.cache.peek key = none ∧ entry.cachedAt + 1000 * entry.ttl ≤ t

/-- An entry is too old when its TTL is over, which then is also its time in the cache. -/
theorem expired_iff (hcacheTtl : entry.cacheTtl = entry.ttl) (hpos : 0 < entry.ttl)
    (hstart : entry.cachedAt ≤ t) :
    entry.isCacheExpired t = true ↔ entry.cachedAt + 1000 * entry.ttl ≤ t := by
  rw [CacheEntry.isCacheExpired, Bool.or_eq_true, beq_iff_eq, decide_eq_true_iff, hcacheTtl]
  omega

theorem remaining_pos (h : t < entry.cachedAt + 1000 * entry.ttl) (hstart : entry.cachedAt ≤ t) :
    0 < entry.remainingTtl t := by
  have hmod := Nat.mod_le ((t - entry.cachedAt) / 1000) (U32_MAX + 1)
  rw [CacheEntry.remainingTtl]
  omega

variable (hcacheTtl : entry.cacheTtl = entry.ttl) (hpos : 0 < entry.ttl)

include hcacheTtl hpos

theorem Alive.run (h : Alive key entry t c) (hstart : entry.cachedAt ≤ t) (hrun : Run env key t c t' c') :
    Alive key entry t' c' ∧ entry.cachedAt ≤ t' := by
  induction hrun with
  | start => exact ⟨h, hstart⟩
  | elapse _ duration ih =>
    obtain ⟨halive, hle⟩ := ih
    refine ⟨⟨halive.cacheTtl, halive.peek.imp id fun hgone => ⟨hgone.1, ?_⟩⟩, ?_⟩
    · exact Nat.le_add_right_of_le hgone.2
    · exact Nat.le_add_right_of_le hle
  | @lookup t' c' _ ctx hresponse ih =>
    obtain ⟨halive, hle⟩ := ih
    refine ⟨?_, hle⟩
    rcases CachePlugin.execute_cases env t' ctx c' with heq | ⟨-, asked, -, heq⟩ | ⟨hsome, -⟩
    · rw [heq]
      exact halive
    · rw [heq]
      refine ⟨(c'.tryServeFromCache_cases t' asked ctx).1.cacheTtl.trans halive.cacheTtl, ?_⟩
      rcases c'.tryServeFromCache_peek t' asked ctx key with hsame | ⟨rfl, hnone, e, he, hold⟩
      · rw [hsame]
        exact halive.peek
      · refine .inr ⟨hnone, ?_⟩
        rcases halive.peek with hpeek | hgone
        · cases Option.some.inj (hpeek.symm.trans he)
          by_contra hlt
          rcases hold with hexpired | ⟨hremaining, -⟩
          · exact hlt ((expired_iff hcacheTtl hpos hle).mp hexpired)
          · exact Nat.ne_of_gt (remaining_pos (Nat.lt_of_not_le hlt) hle) hremaining
        · exact hgone.2
    · exact absurd hresponse hsome
  | @store t' c' _ ctx hresponse hkept ih =>
    obtain ⟨halive, hle⟩ := ih
    refine ⟨⟨?_, ?_⟩, hle⟩
    · rcases CachePlugin.execute_cases env t' ctx c' with heq | ⟨hnone, -⟩ | ⟨-, asked, e, -, -, heq⟩
      · rw [heq]
        exact halive.cacheTtl
      · exact absurd hnone hresponse
      · rw [heq]
        exact halive.cacheTtl
    · rw [hkept]
      exact halive.peek
  | @cleanup t' c' _ ih =>
    obtain ⟨halive, hle⟩ := ih
    have hretain : (c'.cleanupExpired t').cache.peek key =
        (c'.cache.peek key).filter fun e => !e.isCacheExpired t' := ShardedLruCache.peek_retain _ _ _
    refine ⟨⟨halive.cacheTtl, ?_⟩, hle⟩
    rw [hretain]
    rcases halive.peek with hpeek | hgone
    · rw [hpeek, Option.filter_some]
      by_cases hexpired : entry.isCacheExpired t' = true
      · rw [hexpired]
        exact .inr ⟨rfl, (expired_iff hcacheTtl hpos hle).mp hexpired⟩
      · rw [Bool.not_eq_true] at hexpired
        rw [hexpired]
        exact .inl rfl
    · rw [hgone.1]
      exact .inr ⟨rfl, hgone.2⟩
  | background _ hcache hsettings ih =>
    obtain ⟨halive, hle⟩ := ih
    refine ⟨⟨hsettings.trans halive.cacheTtl, ?_⟩, hle⟩
    rw [hcache]
    exact halive.peek

/-- A request is served from the entry exactly while its TTL lasts. -/
theorem Alive.serves (h : Alive key entry t c) (hstart : entry.cachedAt ≤ t) (hasking : Asking env key ctx) :
    (c.execute env t ctx).1.response =
      if t < entry.cachedAt + 1000 * entry.ttl then
        some { CachePlugin.updateTtls entry.response (entry.remainingTtl t) with
          id := ctx.request.id
          questions := ctx.request.questions }
      else none := by
  have hexecute : c.execute env t ctx = c.tryServeFromCache t key ctx := by
    rw [CachePlugin.execute, hasking.key, hasking.unmarked, hasking.response]
    rfl
  rw [hexecute]
  split
  · rename_i hlive
    rcases h.peek with hpeek | hgone
    · rw [(CachePlugin.tryServeFromCache_hit hpeek hasking.foreground (by omega)).2]
      rfl
    · omega
  · rename_i hover
    rw [CachePlugin.tryServeFromCache_expired ctx ?_, hasking.response]
    intro e he
    rcases h.peek with hpeek | hgone
    · cases Option.some.inj (hpeek.symm.trans he)
      exact (expired_iff hcacheTtl hpos hstart).mpr (Nat.le_of_not_lt hover)
    · rw [hgone.1] at he
      cases he

end

/-! ### The minimum -/

theorem le_foldl_min {l : List ResourceRecord} {bound x : Nat} :
    x ≤ l.foldl (fun t rr => min t rr.ttl) bound ↔ x ≤ bound ∧ ∀ rr ∈ l, x ≤ rr.ttl := by
  induction l generalizing bound with
  | nil => simp
  | cons rr l ih =>
    rw [List.foldl_cons, ih, Nat.le_min]
    simp [and_assoc]

theorem foldl_min_le {l : List ResourceRecord} {bound : Nat} :
    l.foldl (fun t rr => min t rr.ttl) bound ≤ bound := (le_foldl_min.mp le_rfl).1

theorem getMinTtl_pos (m : Message) : 0 < CachePlugin.getMinTtl m := by
  rw [CachePlugin.getMinTtl]
  split <;> omega

theorem getMinTtl_le (m : Message) : CachePlugin.getMinTtl m ≤ U32_MAX := by
  have hle : m.records.foldl (fun t rr => min t rr.ttl) U32_MAX ≤ U32_MAX := foldl_min_le
  have hmax : 300 ≤ U32_MAX := by decide
  rw [CachePlugin.getMinTtl]
  split
  · exact hmax
  · omega

theorem leastTtl_pos (m : Message) : 1 ≤ leastTtl m := Nat.le_max_left _ _

/-- The sentinel: when every TTL is the largest there is, 300 seconds are taken instead. -/
theorem getMinTtl_of_max {m : Message} (h : ∀ rr ∈ m.records, U32_MAX ≤ rr.ttl) :
    CachePlugin.getMinTtl m = 300 ∧ leastTtl m = U32_MAX := by
  have hfold : m.records.foldl (fun t rr => min t rr.ttl) U32_MAX = U32_MAX :=
    Nat.le_antisymm foldl_min_le (le_foldl_min.mpr ⟨le_rfl, h⟩)
  have hfilter : (m.records.filter fun rr => rr.rtype ≠ .OPT).foldl (fun t rr => min t rr.ttl) U32_MAX =
      U32_MAX :=
    Nat.le_antisymm foldl_min_le
      (le_foldl_min.mpr ⟨le_rfl, fun rr hrr => h rr (List.mem_of_mem_filter hrr)⟩)
  refine ⟨?_, ?_⟩
  · rw [CachePlugin.getMinTtl]
    exact if_pos hfold
  · rw [leastTtl, hfilter]
    decide

theorem getMinTtl_of_lt {m : Message} (h : ∃ rr ∈ m.records, rr.ttl < U32_MAX) :
    CachePlugin.getMinTtl m = max (m.records.foldl (fun t rr => min t rr.ttl) U32_MAX) 1 := by
  obtain ⟨rr, hrr, hlt⟩ := h
  rw [CachePlugin.getMinTtl]
  refine if_neg fun hfold => ?_
  have hle := (le_foldl_min.mp (Nat.le_of_eq hfold.symm)).2 rr hrr
  omega

/-- The two minima agree without OPT records, and when an OPT record does not count for more than the others. -/
theorem getMinTtl_eq_leastTtl {m : Message} (h : ∃ rr ∈ m.records, rr.ttl < U32_MAX)
    (hopt : (∀ rr ∈ m.records, rr.rtype ≠ .OPT) ∨
      leastTtl m = 1 ∧ ∀ rr ∈ m.records, rr.rtype = .OPT → rr.ttl = 1) :
    CachePlugin.getMinTtl m = leastTtl m := by
  rw [getMinTtl_of_lt h]
  by_cases hnone : ∀ rr ∈ m.records, rr.rtype ≠ .OPT
  · rw [leastTtl, List.filter_eq_self.mpr (by simpa using hnone), Nat.max_comm]
  · obtain ⟨hleast, hone⟩ := hopt.resolve_left hnone
    push Not at hnone
    obtain ⟨rr, hrr, htype⟩ := hnone
    have hle := (le_foldl_min.mp (le_refl (m.records.foldl (fun t rr => min t rr.ttl) U32_MAX))).2 rr hrr
    rw [hone rr hrr htype] at hle
    omega

theorem mapRecords_eq_iff {m : Message} {f g : ResourceRecord → ResourceRecord} {id : UInt16}
    {questions : List Question} :
    ({ m.mapRecords f with id, questions } : Message) = { m.mapRecords g with id, questions } ↔
      ∀ rr ∈ m.records, f rr = g rr := by
  simp only [Message.mapRecords, Message.records, Message.mk.injEq, List.map_inj_left, List.mem_append,
    true_and, or_imp, forall_and, and_assoc]

/-! ### When the law holds -/

section

variable {env : Env} {key : String} {c : CachePlugin} {t : Nat} {ctx : Context} {response : Message}

theorem serves_after_store (hsettings : c.cacheTtl = none)
    (hkey : CachePlugin.makeKey env ctx.request = some key) (hresponse : ctx.response = some response)
    (hunmarked : ctx.getBool "response_from_cache" = none) (hok : response.rcode = .noError)
    (hanswers : response.answers ≠ []) {t' : Nat} {c' : CachePlugin} {asked : Context}
    (hrun : Run env key t (c.execute env t ctx).2 t' c') (hasking : Asking env key asked) :
    t ≤ t' ∧ (c'.execute env t' asked).1.response =
      if t' < t + 1000 * CachePlugin.getMinTtl response then
        some { CachePlugin.updateTtls response (CachePlugin.getMinTtl response - (t' - t) / 1000) with
          id := asked.request.id
          questions := asked.request.questions }
      else none := by
  let entry := CacheEntry.new t response (CachePlugin.getMinTtl response) (CachePlugin.getMinTtl response)
  have hpos := getMinTtl_pos response
  have hentry : c.storedEntry t ctx = some entry := by
    rw [CachePlugin.storedEntry_eq_some hresponse]
    refine ⟨hunmarked, ?_⟩
    have hnonempty : response.answers.isEmpty = false := by
      cases hnil : response.answers with
      | nil => exact absurd hnil hanswers
      | cons rr rest => rfl
    rw [CachePlugin.entryFor, hok, hnonempty, hsettings]
    simp only [ne_eq, not_true_eq_false, if_false, Bool.false_eq_true, hpos, if_true]
    rfl
  have hexecute : (c.execute env t ctx).2 = c.store key entry := by
    rw [CachePlugin.execute_of_response env t c (by rw [hresponse]; exact Option.some_ne_none _), hkey,
      hentry]
  have halive : Alive key entry t (c.execute env t ctx).2 := by
    rw [hexecute]
    have hstored := CachePlugin.store_stored c key entry
    exact ⟨hstored.cacheTtl.trans hsettings, .inl hstored.self⟩
  obtain ⟨halive', hle⟩ := halive.run rfl hpos le_rfl hrun
  refine ⟨hle, ?_⟩
  rw [halive'.serves rfl hpos hle hasking]
  change (if t' < t + 1000 * CachePlugin.getMinTtl response then _ else _) = _
  split
  · rename_i hlive
    have hmax := getMinTtl_le response
    have hremaining : entry.remainingTtl t' = CachePlugin.getMinTtl response - (t' - t) / 1000 := by
      change CachePlugin.getMinTtl response - (t' - t) / 1000 % (U32_MAX + 1) = _
      rw [Nat.mod_eq_of_lt (by omega)]
    rw [hremaining]
    rfl
  · rfl

/-- The law holds of a response exactly if some TTL is below the largest one, and either no record is an OPT record or all times are one second anyway. -/
theorem law_iff (hsettings : c.cacheTtl = none)
    (hkey : CachePlugin.makeKey env ctx.request = some key) (hresponse : ctx.response = some response)
    (hunmarked : ctx.getBool "response_from_cache" = none) (hok : response.rcode = .noError)
    (hanswers : response.answers ≠ []) :
    Law env key response t (c.execute env t ctx).2 ↔
      (∃ rr ∈ response.records, rr.ttl < U32_MAX) ∧
        ((∀ rr ∈ response.records, rr.rtype ≠ .OPT) ∨
          leastTtl response = 1 ∧ ∀ rr ∈ response.records, rr.rtype = .OPT → rr.ttl = 1) := by
  have hpos := getMinTtl_pos response
  have hleast := leastTtl_pos response
  have hserves := fun t' c' asked => @serves_after_store env key c t ctx response hsettings hkey hresponse
    hunmarked hok hanswers t' c' asked
  constructor
  · intro hlaw
    have hasking : Asking env key (Context.new ctx.request) := ⟨hkey, rfl, rfl, rfl⟩
    have hafter : Run env key t (c.execute env t ctx).2 (t + 1000) (c.execute env t ctx).2 :=
      .elapse .start 1000
    -- at the time of the store
    have hfirst : ∀ rr ∈ response.records, { rr with ttl := CachePlugin.getMinTtl response } =
        if rr.rtype = .OPT then rr else { rr with ttl := leastTtl response } := by
      have hnow := (hlaw t _ _ .start hasking).1 (by omega)
      rw [(hserves _ _ _ .start hasking).2, if_pos (by omega), Nat.sub_self, Nat.zero_div, Nat.sub_zero,
        Nat.sub_zero] at hnow
      exact mapRecords_eq_iff.mp (Option.some.inj hnow)
    have hopt : ∀ rr ∈ response.records, rr.rtype = .OPT → rr.ttl = CachePlugin.getMinTtl response := by
      intro rr hrr htype
      have heq := hfirst rr hrr
      rw [if_pos htype] at heq
      exact (congrArg ResourceRecord.ttl heq).symm
    refine ⟨?_, ?_⟩
    · by_contra hnot
      push Not at hnot
      obtain ⟨hmin, hmax⟩ := getMinTtl_of_max hnot
      obtain ⟨rr, rest, hcons⟩ := List.exists_cons_of_ne_nil hanswers
      have hrr : rr ∈ response.records := by
        rw [Message.records, hcons]
        simp
      have hlarge := hnot rr hrr
      have heq := congrArg ResourceRecord.ttl (hfirst rr hrr)
      rw [hmin, hmax] at heq
      rw [U32_MAX] at heq hlarge
      split at heq
      · change 300 = rr.ttl at heq
        omega
      · change 300 = 4294967295 at heq
        omega
    · by_cases hnone : ∀ rr ∈ response.records, rr.rtype ≠ .OPT
      · exact .inl hnone
      · push Not at hnone
        obtain ⟨rr, hrr, htype⟩ := hnone
        -- one second later the OPT record has another TTL, or nothing is served
        have hone : leastTtl response = 1 := by
          by_contra hne
          have hlater := (hlaw _ _ _ hafter hasking).1 (by omega)
          rw [(hserves _ _ _ hafter hasking).2] at hlater
          split at hlater
          · have heq := mapRecords_eq_iff.mp (Option.some.inj hlater) rr hrr
            rw [if_pos htype] at heq
            have hsame := congrArg ResourceRecord.ttl heq
            change CachePlugin.getMinTtl response - (t + 1000 - t) / 1000 = rr.ttl at hsame
            rw [hopt rr hrr htype] at hsame
            omega
          · cases hlater
        have hover := (hlaw _ _ _ hafter hasking).2 (by omega)
        rw [(hserves _ _ _ hafter hasking).2] at hover
        split at hover
        · cases hover
        · refine .inr ⟨hone, fun rr hrr htype => ?_⟩
          have heq := hopt rr hrr htype
          omega
  · rintro ⟨hlt, hopt⟩ t' c' asked hrun hasking
    obtain ⟨hle, hserved⟩ := hserves t' c' asked hrun hasking
    rw [getMinTtl_eq_leastTtl hlt hopt] at hserved
    rw [hserved]
    refine ⟨fun hlive => ?_, fun hover => if_neg (by omega)⟩
    rw [if_pos hlive]
    refine congrArg some (mapRecords_eq_iff.mpr fun rr hrr => ?_)
    split
    · rename_i htype
      rcases hopt with hnone | ⟨hone, hall⟩
      · exact absurd htype (hnone rr hrr)
      · have httl := hall rr hrr htype
        have heq : leastTtl response - (t' - t) / 1000 = rr.ttl := by omega
        rw [heq]
    · rfl

end

/-! ### With and without an OPT record -/

def addressReply : Message :=
  { Message.ask 7 "a." .A with qr := true, answers := [⟨"a.", .A, .IN, 300, .A 0⟩] }

/-- The same with an OPT record, whose TTL field the parser sets to 0. -/
def ednsReply : Message :=
  { addressReply with additional := [⟨".", .OPT, .unknown 1232, 0, .OPT 0 0 0 []⟩] }

def answered (response : Message) : Context :=
  (Context.new (.ask 7 "a." .A)).setResponse (some response)

theorem law_addressReply :
    Law (.answering (.ok Message.new)) "a.:1:1:0" addressReply 0
      ((CachePlugin.new 16).execute (.answering (.ok Message.new)) 0 (answered addressReply)).2 :=
  (@law_iff (.answering (.ok Message.new)) "a.:1:1:0" (CachePlugin.new 16) 0 (answered addressReply)
    addressReply rfl (by decide +kernel) rfl rfl rfl (by decide)).mpr
    ⟨⟨⟨"a.", .A, .IN, 300, .A 0⟩, by decide, by decide⟩, .inl (by decide)⟩

/-- An answer with a TTL of 300 seconds and an OPT record is gone after two. -/
theorem not_law_ednsReply :
    ¬ Law (.answering (.ok Message.new)) "a.:1:1:0" ednsReply 0
      ((CachePlugin.new 16).execute (.answering (.ok Message.new)) 0 (answered ednsReply)).2 := by
  intro hlaw
  have hasking : Asking (.answering (.ok Message.new)) "a.:1:1:0" (Context.new (.ask 7 "a." .A)) :=
    ⟨by decide +kernel, rfl, rfl, rfl⟩
  have hserved := (hlaw 2000 _ _ (.elapse .start 2000) hasking).1 (by decide)
  have hgone : (((CachePlugin.new 16).execute (.answering (.ok Message.new)) 0 (answered ednsReply)).2.execute
      (.answering (.ok Message.new)) 2000 (Context.new (.ask 7 "a." .A))).1.response = none := by
    decide +kernel
  rw [hgone] at hserved
  cases hserved

end TtlLaw

end Lazydns
