import Lazydns.Server.Service

/-!
# The domain validator and its cache

The validator looks a name up in its cache before it validates it, and the verdict depends on the query type too: a label may start with an underscore in a query for a service binding. The cache is keyed by the name alone, so a verdict given for one type answers for another as long as the name stays in the cache. It holds the last names asked for, as many as it has room for.
-/

namespace Lazydns

open Dns

namespace DomainValidatorPlugin

/-- What `execute` validates: the name and the type of the first question. -/
def asked (ctx : Context) : String × Option RecordType :=
  ((ctx.request.questions.head?.map Question.qname).getD "", ctx.request.questions.head?.map Question.qtype)

/-- `validate_domain_with_qtype` on a query. -/
def direct (strictMode : Bool) (query : String × Option RecordType) : ValidationResult :=
  validateDomainWithQtype strictMode query.1 query.2

/-- The verdict that `execute` applies. -/
def verdict (ctx : Context) (p : DomainValidatorPlugin) : ValidationResult :=
  (p.cache.peek (asked ctx).1).getD (direct p.strictMode (asked ctx))

/-- A hit and a miss both leave the verdict in front of the cache. -/
theorem execute_eq (ctx : Context) (p : DomainValidatorPlugin) :
    execute ctx p = (handleResult (p.verdict ctx) ctx,
      { p with cache := p.cache.put (asked ctx).1 (p.verdict ctx) }) := by
  rw [execute, verdict, asked, Lru.get]
  cases hcached : p.cache.peek ((ctx.request.questions.head?.map Question.qname).getD "") with
  | none => rfl
  | some result => rfl

/-! ### Runs -/

/-- Every verdict of a run is the one that direct validation gives. -/
def AppliesDirect : DomainValidatorPlugin → List Context → Prop
  | _, [] => True
  | p, ctx :: ctxs => p.verdict ctx = direct p.strictMode (asked ctx) ∧ AppliesDirect (execute ctx p).2 ctxs

/-- The queries by name, the last one first, after one more. -/
def remember (query : String × Option RecordType) (recent : List (String × Option RecordType)) :
    List (String × Option RecordType) :=
  query :: recent.eraseP fun earlier => earlier.1 = query.1

/-- Wherever a name is asked for that is among the last `cap` names, its last query had the same verdict. -/
def Consistent (strictMode : Bool) (cap : Nat) :
    List (String × Option RecordType) → List (String × Option RecordType) → Prop
  | _, [] => True
  | recent, query :: queries =>
    (∀ earlier ∈ recent.take cap, earlier.1 = query.1 → direct strictMode earlier = direct strictMode query) ∧
      Consistent strictMode cap (remember query recent) queries

/-- The cache holds the direct verdicts of the last queries. -/
def Remembers (p : DomainValidatorPlugin) (recent : List (String × Option RecordType)) : Prop :=
  p.cache.entries = (recent.take p.cache.cap).map fun query => (query.1, direct p.strictMode query)

theorem Remembers.verdict_iff {p : DomainValidatorPlugin} {recent : List (String × Option RecordType)}
    (h : p.Remembers recent) (ctx : Context) :
    p.verdict ctx = direct p.strictMode (asked ctx) ↔
      ∀ earlier ∈ recent.take p.cache.cap, earlier.1 = (asked ctx).1 →
        direct p.strictMode earlier = direct p.strictMode (asked ctx) := by
  have hpeek : ∀ earlier ∈ recent.take p.cache.cap, earlier.1 = (asked ctx).1 →
      p.cache.peek (asked ctx).1 = some (direct p.strictMode earlier) := by
    intro earlier hearlier hname
    rw [← hname, ← Lru.mem_entries, h]
    exact List.mem_map.mpr ⟨earlier, hearlier, rfl⟩
  constructor
  · intro hverdict earlier hearlier hname
    rw [verdict, hpeek earlier hearlier hname, Option.getD_some] at hverdict
    exact hverdict
  · intro hsame
    rw [verdict]
    cases hcached : p.cache.peek (asked ctx).1 with
    | none => rfl
    | some result =>
      rw [← Lru.mem_entries, h] at hcached
      obtain ⟨earlier, hearlier, heq⟩ := List.mem_map.mp hcached
      obtain ⟨hname, hresult⟩ := Prod.mk.inj heq
      rw [Option.getD_some, ← hresult, hsame earlier hearlier hname]

theorem Remembers.execute {p : DomainValidatorPlugin} {recent : List (String × Option RecordType)}
    (h : p.Remembers recent) {ctx : Context} (hverdict : p.verdict ctx = direct p.strictMode (asked ctx)) :
    (execute ctx p).2.Remembers (remember (asked ctx) recent) := by
  rw [execute_eq, hverdict]
  dsimp only [Remembers]
  rw [Lru.entries_put_eq, Lru.put_cap, h, List.eraseP_map, remember, ← Lru.take_cons_eraseP, List.map_take,
    List.map_cons]
  rfl

theorem appliesDirect_iff {ctxs : List Context} :
    ∀ {p : DomainValidatorPlugin} {recent : List (String × Option RecordType)}, p.Remembers recent →
      (p.AppliesDirect ctxs ↔ Consistent p.strictMode p.cache.cap recent (ctxs.map asked)) := by
  induction ctxs with
  | nil => exact fun _ => Iff.rfl
  | cons ctx ctxs ih =>
    intro p recent h
    rw [AppliesDirect, List.map_cons, Consistent, ← h.verdict_iff]
    refine and_congr_right fun hverdict => ?_
    have hrest := ih (h.execute hverdict)
    rw [execute_eq] at hrest ⊢
    dsimp only at hrest
    rwa [Lru.put_cap] at hrest

private theorem new_remembers (strictMode : Bool) (cacheSize : Nat) :
    (new strictMode cacheSize).Remembers [] := by
  rw [Remembers, List.take_nil]
  rfl

/-- The cache makes no difference exactly in the runs where no name comes back, while it is among the last names, with a type that changes its verdict. -/
theorem appliesDirect_new_iff (strictMode : Bool) (cacheSize : Nat) (ctxs : List Context) :
    (new strictMode cacheSize).AppliesDirect ctxs ↔
      Consistent strictMode (max cacheSize 1) [] (ctxs.map asked) :=
  appliesDirect_iff (new_remembers strictMode cacheSize)

/-- An address query leaves the verdict on a service name that a service-binding query then gets. -/
theorem not_appliesDirect_service :
    ¬(new true 1000).AppliesDirect
      [.new (.ask 1 "_dns.resolver.arpa" .A), .new (.ask 2 "_dns.resolver.arpa" .HTTPS)] := by
  have hinvalid : direct true ("_dns.resolver.arpa", some .A) = .invalid "invalid characters" := by decide +kernel
  have hvalid : direct true ("_dns.resolver.arpa", some .HTTPS) = .valid := by decide +kernel
  rw [appliesDirect_iff (new_remembers true 1000)]
  rintro ⟨-, hsecond, -⟩
  have hsame := hsecond ("_dns.resolver.arpa", some .A) List.mem_cons_self rfl
  cases hinvalid.symm.trans (hsame.trans hvalid)

end DomainValidatorPlugin

end Lazydns
