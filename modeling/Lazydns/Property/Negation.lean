import Lazydns.Plugin.ConditionBuilder
import Lazydns.Property.Reload
import Lazydns.Server.Service

/-!
# Conditions and their negations

`!resp_ip` looks its reference up as `resp_ip` does, and is its complement. `!qname` does not: it compares the name with the text of the reference, while `qname` asks the domain set that the reference leads to. So the two are complements exactly where the set has the name if and only if it is that text.
-/

namespace Lazydns

variable (env : Env) (ruleEnv : RuleEnv) (registry : PluginRegistry) (ref : String) (ctx : Context)

/-- Both conditions are built, and the second is true where the first is not. -/
def Complementary (condition negated : Except Error Condition) : Prop :=
  ∃ c c', condition = .ok c ∧ negated = .ok c' ∧ (c'.eval env ctx = true ↔ c.eval env ctx = false)

/-- The first question has the name of the reference, case apart, exactly if it is in the domain set that the reference leads to. -/
def NamesItsSet : Prop :=
  ∀ q ∈ ctx.request.questions.head?,
    env.toLowercase q.qname = env.toLowercase ref ↔ domainsOf ruleEnv registry ref (trimEndDots q.qname) = true

theorem complementary_respIp :
    Complementary env ctx (RespIpBuilder.build registry ("resp_ip " ++ ref))
      (RespIpNegBuilder.build registry ("!resp_ip " ++ ref)) := by
  obtain ⟨condition, negated, hbuild, hneg, heval⟩ := RespIpBuilder.build_eq registry ref
  refine ⟨condition, negated, hbuild, hneg, ?_⟩
  rw [heval, Bool.not_eq_true']

theorem complementary_qname_iff :
    Complementary env ctx (QnameBuilder.build ruleEnv registry ("qname " ++ ref))
        (QnameNegBuilder.build ("!qname " ++ ref)) ↔ NamesItsSet env ruleEnv registry ref ctx := by
  obtain ⟨condition, hbuild, heval⟩ := QnameBuilder.build_eq ruleEnv registry ref
  have hsome : Complementary env ctx (QnameBuilder.build ruleEnv registry ("qname " ++ ref))
      (QnameNegBuilder.build ("!qname " ++ ref)) ↔
        ((Condition.notQname ref).eval env ctx = true ↔ condition.eval env ctx = false) := by
    rw [hbuild, QnameNegBuilder.build_eq]
    constructor
    · rintro ⟨c, c', hc, hc', h⟩
      cases hc
      cases hc'
      exact h
    · exact fun h => ⟨_, _, rfl, rfl, h⟩
  rw [hsome, heval, Condition.eval, NamesItsSet]
  cases ctx.request.questions.head? with
  | none => simp
  | some q =>
    simp only [Option.all_some, Option.any_some, Option.mem_def, Option.some.injEq, forall_eq', decide_eq_true_eq]
    rw [ne_eq, ← Bool.not_eq_true, not_iff_not]

/-- The negated conditions are complements exactly for the names that are in the set of a reference just if they are its text; those on addresses always. -/
theorem complementary_iff :
    Complementary env ctx (QnameBuilder.build ruleEnv registry ("qname " ++ ref))
          (QnameNegBuilder.build ("!qname " ++ ref)) ∧
        Complementary env ctx (RespIpBuilder.build registry ("resp_ip " ++ ref))
          (RespIpNegBuilder.build registry ("!resp_ip " ++ ref)) ↔
      NamesItsSet env ruleEnv registry ref ctx := by
  rw [complementary_qname_iff]
  exact and_iff_left (complementary_respIp env registry ref ctx)

/-- A registry with a domain set `ads` of one name. -/
def adsRegistry : PluginRegistry := fun name =>
  if name = "ads" then some (.domainSet ⟨⟨[], ["ad.example"], false, .full⟩, ⟨["ad.example"], [], [], []⟩⟩) else none

/-- A name in the set `ads` meets the condition and its negation; a name that is written out meets neither. -/
theorem not_complementary_ads :
    let env := Env.answering (.ok .new)
    let ctx := Context.new (.ask 1 "ad.example" .A)
    (QnameBuilder.build .plain adsRegistry "qname $ads").map (·.eval env ctx) = .ok true ∧
      (QnameNegBuilder.build "!qname $ads").map (·.eval env ctx) = .ok true ∧
      (QnameBuilder.build .plain adsRegistry "qname ad.example").map (·.eval env ctx) = .ok false ∧
      (QnameNegBuilder.build "!qname ad.example").map (·.eval env ctx) = .ok false ∧
      ¬Complementary env ctx (QnameBuilder.build .plain adsRegistry "qname $ads")
        (QnameNegBuilder.build "!qname $ads") := by
  intro env ctx
  have hset : (QnameBuilder.build .plain adsRegistry "qname $ads").map (·.eval env ctx) = .ok true := by
    decide +kernel
  have hneg : (QnameNegBuilder.build "!qname $ads").map (·.eval env ctx) = .ok true := by decide +kernel
  refine ⟨hset, hneg, by decide +kernel, by decide +kernel, ?_⟩
  rintro ⟨c, c', hc, hc', h⟩
  rw [hc] at hset
  rw [hc'] at hneg
  rw [Except.map, Except.ok.injEq] at hset hneg
  rw [h.mp hneg] at hset
  cases hset

end Lazydns
