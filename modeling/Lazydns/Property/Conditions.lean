import Lazydns.Lib.Found
import Lazydns.Plugin.ConditionParser
import Mathlib.Data.List.Forall2

/-!
# What the texts of conditions mean

The registry looks for a builder in an order that the hash map gives it. It matters for some text exactly if one builder claims the name of another, which none of those that are registered does, so only one of them comes into question for a text. The texts that are accepted are then those of nine forms; whatever else is written is refused with an error that shows it.
-/

namespace Lazydns

/-! ### Any order -/

section

variable {builders order : List ConditionBuilder} {a b : ConditionBuilder} {conditionStr : String}
  {name name' word : List Char}

/-- A word is for a builder if it has the name before a dot, or begins with it and the name is negated. -/
def Claims (name word : List Char) : Prop := name ++ ['.'] <+: word ∨ ['!'] <+: name ∧ name <+: word

instance (name word : List Char) : Decidable (Claims name word) := inferInstanceAs (Decidable (_ ∨ _ ∧ _))

/-- If two builders claim one word, then one of them claims the name of the other. -/
theorem Claims.overlap (h : Claims name word) (h' : Claims name' word) :
    name = name' ∨ Claims name name' ∨ Claims name' name := by
  rcases h with hdot | ⟨hbang, hpre⟩
  · rcases h' with hdot' | ⟨hbang', hpre'⟩
    · rcases List.prefix_or_prefix_of_prefix hdot hdot' with h | h
      · rcases List.prefix_concat_iff.mp h with heq | hclaim
        · exact .inl (List.append_cancel_right heq)
        · exact .inr (.inl (.inl hclaim))
      · rcases List.prefix_concat_iff.mp h with heq | hclaim
        · exact .inl (List.append_cancel_right heq).symm
        · exact .inr (.inr (.inl hclaim))
    · rcases List.prefix_or_prefix_of_prefix hdot hpre' with h | h
      · exact .inr (.inl (.inl h))
      · rcases List.prefix_concat_iff.mp h with heq | hclaim
        · exact .inr (.inl (.inl (heq ▸ List.prefix_refl _)))
        · exact .inr (.inr (.inr ⟨hbang', hclaim⟩))
  · rcases h' with hdot' | ⟨hbang', hpre'⟩
    · rcases List.prefix_or_prefix_of_prefix hpre hdot' with h | h
      · rcases List.prefix_concat_iff.mp h with heq | hclaim
        · exact .inr (.inr (.inl (heq ▸ List.prefix_refl _)))
        · exact .inr (.inl (.inr ⟨hbang, hclaim⟩))
      · exact .inr (.inr (.inl h))
    · rcases List.prefix_or_prefix_of_prefix hpre hpre' with h | h
      · exact .inr (.inl (.inr ⟨hbang, h⟩))
      · exact .inr (.inr (.inr ⟨hbang', h⟩))

/-- Builders by different names, which are words. -/
structure Registered (builders : List ConditionBuilder) : Prop where
  words : ∀ b ∈ builders, IsWord b.name
  nodup : (builders.map (·.name)).Nodup

/-- No builder claims the name of another. -/
def NamesApart (builders : List ConditionBuilder) : Prop :=
  ∀ a ∈ builders, ∀ b ∈ builders, Claims a.name.toList b.name.toList → a.name = b.name

theorem startsWith_iff {p s : String} : startsWith p s = true ↔ p.toList <+: s.toList := by
  rw [startsWith, Option.isSome_iff_exists]
  constructor
  · rintro ⟨rest, hrest⟩
    rw [stripPrefix_eq_some_iff] at hrest
    rw [hrest, String.toList_append]
    exact List.prefix_append _ _
  · rintro ⟨rest, hrest⟩
    refine ⟨String.ofList rest, ?_⟩
    rw [stripPrefix_eq_some_iff, ← String.toList_inj, String.toList_append, String.toList_ofList, hrest]

theorem canHandle_iff : b.canHandle conditionStr = true ↔ conditionName conditionStr = b.name ∨
    b.name.toList ++ ['.'] <+: (conditionName conditionStr).toList ∨
      ['!'] <+: b.name.toList ∧ b.name.toList <+: conditionStr.toList := by
  rw [ConditionBuilder.canHandle, decide_eq_true_iff, startsWith_iff, startsWith_iff, startsWith_iff,
    String.toList_append]
  exact Iff.rfl

theorem claims_of_canHandle (hword : IsWord b.name) (h : b.canHandle conditionStr = true) :
    conditionName conditionStr = b.name ∨ Claims b.name.toList (conditionName conditionStr).toList := by
  rcases canHandle_iff.mp h with hsame | hdot | ⟨hbang, rest, hrest⟩
  · exact .inl hsame
  · exact .inr (.inl hdot)
  · refine .inr (.inr ⟨hbang, ?_⟩)
    rw [conditionName_append hword hrest.symm]
    exact List.prefix_append _ _

theorem Registered.eq_of_name (h : Registered builders) (ha : a ∈ builders) (hb : b ∈ builders)
    (hname : a.name = b.name) : a = b := List.inj_on_of_nodup_map h.nodup ha hb hname

theorem Registered.single_name (h : Registered builders) (conditionStr : String) :
    Found.Single (fun b : ConditionBuilder => b.name = conditionName conditionStr) builders := by
  intro a ha b hb hname hname'
  exact h.eq_of_name ha hb ((of_decide_eq_true hname).trans (of_decide_eq_true hname').symm)

theorem Registered.getBuilder_eq (h : Registered builders) (hb : b ∈ builders)
    (hname : conditionName conditionStr = b.name) : getBuilder builders conditionStr = some b := by
  have hfound : builders.find? (fun b => b.name = conditionName conditionStr) = some b := by
    cases hfound : builders.find? (fun b => b.name = conditionName conditionStr) with
    | none => exact absurd (decide_eq_true hname.symm) (List.find?_eq_none.mp hfound b hb)
    | some a =>
      have hsame := List.find?_some hfound
      rw [h.eq_of_name (List.mem_of_find?_eq_some hfound) hb ((of_decide_eq_true hsame).trans hname)]
  rw [getBuilder, hfound, Option.some_or]

theorem mem_of_getBuilder (h : getBuilder builders conditionStr = some b) : b ∈ builders := by
  rcases Option.or_eq_some_iff.mp h with hfound | ⟨-, hfound⟩
  · exact List.mem_of_find?_eq_some hfound
  · exact List.mem_of_find?_eq_some hfound

theorem Registered.perm (h : Registered builders) (hperm : builders.Perm order) : Registered order where
  words b hb := h.words b (hperm.mem_iff.mpr hb)
  nodup := (hperm.map _).nodup_iff.mp h.nodup

/-- Of builders that are apart only one can handle a text. -/
theorem Registered.single_canHandle (h : Registered builders) (hapart : NamesApart builders)
    (hnone : ∀ b ∈ builders, conditionName conditionStr ≠ b.name) :
    Found.Single (fun b : ConditionBuilder => b.canHandle conditionStr) builders := by
  intro a ha b hb hhandle hhandle'
  apply h.eq_of_name ha hb
  have hclaim := (claims_of_canHandle (h.words a ha) hhandle).resolve_left (hnone a ha)
  have hclaim' := (claims_of_canHandle (h.words b hb) hhandle').resolve_left (hnone b hb)
  rcases hclaim.overlap hclaim' with heq | hover | hover
  · exact String.toList_inj.mp heq
  · exact hapart a ha b hb hover
  · exact (hapart b hb a ha hover).symm

theorem Registered.getBuilder_perm (h : Registered builders) (hapart : NamesApart builders) (hperm : builders.Perm order)
    (conditionStr : String) : getBuilder order conditionStr = getBuilder builders conditionStr := by
  by_cases hexact : ∃ b ∈ builders, conditionName conditionStr = b.name
  · obtain ⟨b, hb, hname⟩ := hexact
    rw [h.getBuilder_eq hb hname, (h.perm hperm).getBuilder_eq (hperm.mem_iff.mp hb) hname]
  · have hnone : ∀ b ∈ builders, conditionName conditionStr ≠ b.name := fun b hb hname => hexact ⟨b, hb, hname⟩
    rw [getBuilder, getBuilder, (h.single_name conditionStr).perm hperm,
      (h.single_canHandle hapart hnone).perm hperm]

/-- A word that is longer than the names of all builders and begins with the name of one and a dot. -/
def longWord (builders : List ConditionBuilder) (name : String) : String :=
  name ++ "." ++ String.ofList (builders.map (·.name.toList)).flatten

theorem toList_longWord (builders : List ConditionBuilder) (name : String) : (longWord builders name).toList =
    name.toList ++ ['.'] ++ (builders.map (·.name.toList)).flatten := by
  simp [longWord]

theorem Registered.conditionName_longWord (h : Registered builders) (hb : b ∈ builders) :
    conditionName (longWord builders b.name) = longWord builders b.name := by
  apply conditionName_self
  refine ⟨?_, fun c hc => ?_⟩
  · intro hnil
    have hlist := toList_longWord builders b.name
    rw [hnil] at hlist
    simp at hlist
  · rw [toList_longWord, List.mem_append, List.mem_append, List.mem_flatten] at hc
    rcases hc with (hc | hc) | ⟨name, hname, hc⟩
    · exact (h.words b hb).2 c hc
    · rw [List.mem_singleton.mp hc]
      decide
    · obtain ⟨a, ha, rfl⟩ := List.mem_map.mp hname
      exact (h.words a ha).2 c hc

theorem longWord_ne (hb : b ∈ builders) (name : String) : longWord builders name ≠ b.name := by
  intro heq
  have hlength := congrArg (fun s => s.toList.length) heq
  have hle := (List.sublist_flatten_of_mem (List.mem_map_of_mem (f := fun b : ConditionBuilder => b.name.toList)
    hb)).length_le
  simp only [toList_longWord, List.length_append, List.length_singleton] at hlength
  omega

/-- The order of the map never matters exactly if no builder claims the name of another. -/
theorem getBuilder_orderFree_iff (h : Registered builders) :
    (∀ order, builders.Perm order → ∀ conditionStr, getBuilder order conditionStr = getBuilder builders conditionStr) ↔
      NamesApart builders := by
  constructor
  · intro hfree a ha b hb hclaim
    -- Both can handle a long word that begins with the second name and a dot.
    have hword := h.conditionName_longWord hb
    have hprefix : b.name.toList <+: (longWord builders b.name).toList := by
      rw [toList_longWord, List.append_assoc]
      exact List.prefix_append _ _
    have hhandle : a.canHandle (longWord builders b.name) = true := by
      rw [canHandle_iff, hword]
      rcases hclaim with hdot | ⟨hbang, hpre⟩
      · exact .inr (.inl (hdot.trans hprefix))
      · exact .inr (.inr ⟨hbang, hpre.trans hprefix⟩)
    have hhandle' : b.canHandle (longWord builders b.name) = true := by
      rw [canHandle_iff, hword, toList_longWord]
      exact .inr (.inl (List.prefix_append _ _))
    have hlookup : ∀ order, builders.Perm order → getBuilder order (longWord builders b.name) =
        order.find? fun b' => b'.canHandle (longWord builders b.name) := by
      intro order hperm
      have hnone : order.find? (fun b' => b'.name = conditionName (longWord builders b.name)) = none := by
        apply List.find?_eq_none.mpr
        intro b' hb' hname
        rw [hword] at hname
        exact longWord_ne (hperm.mem_iff.mpr hb') b.name (of_decide_eq_true hname).symm
      rw [getBuilder, hnone, Option.none_or]
    have hsingle : Found.Single (fun b' : ConditionBuilder => b'.canHandle (longWord builders b.name)) builders := by
      apply Found.single_iff.mpr
      intro order hperm
      rw [← hlookup order hperm, ← hlookup builders (List.Perm.refl _)]
      exact hfree order hperm _
    rw [hsingle a ha b hb hhandle hhandle']
  · exact fun hapart order hperm conditionStr => h.getBuilder_perm hapart hperm conditionStr

/-- With a second negated name that begins with the first, the order matters. -/
theorem getBuilder_orderFree_iff_negated : Registered [⟨"!q", QnameNegBuilder.build⟩, ⟨"!qname", QnameNegBuilder.build⟩] ∧
    ¬∀ order, List.Perm [⟨"!q", QnameNegBuilder.build⟩, ⟨"!qname", QnameNegBuilder.build⟩] order →
      ∀ conditionStr, getBuilder order conditionStr =
        getBuilder [⟨"!q", QnameNegBuilder.build⟩, ⟨"!qname", QnameNegBuilder.build⟩] conditionStr := by
  have hregistered : Registered [⟨"!q", QnameNegBuilder.build⟩, ⟨"!qname", QnameNegBuilder.build⟩] := by
    refine ⟨List.forall_mem_cons.mpr ⟨by decide, List.forall_mem_singleton.mpr (by decide)⟩, ?_⟩
    simp only [List.map_cons, List.map_nil]
    decide
  refine ⟨hregistered, fun hfree => ?_⟩
  have hapart := (getBuilder_orderFree_iff hregistered).mp hfree
  have hsame := hapart ⟨"!q", QnameNegBuilder.build⟩ (by simp) ⟨"!qname", QnameNegBuilder.build⟩ (by simp) (by decide)
  exact absurd hsame (by decide)

end

/-! ### The forms -/

/-- The parts of a text, of which there is at least one, are read as the values. -/
def Reads {α : Type} (read : String → Option α) (text : String) (values : List α) : Prop :=
  values ≠ [] ∧ List.Forall₂ (fun part value => read part = some value) (splitWhitespace text) values

variable (toUppercase : String → String) (env : RuleEnv) (registry : PluginRegistry)

/-- The addresses in the set that a reference leads to; there are none if it leads to no such set. -/
def addressesOf (ref : String) (ip : IpAddr) : Bool :=
  match registry (referredName ref) with
  | some (.ipSet p) => p.matches ip
  | _ => false

/-- The texts that are conditions, and what each is true of. -/
inductive Means : String → (Env → Context → Bool) → Prop
  | hasResp : Means "has_resp" fun _ ctx => ctx.response.isSome
  | hasCname : Means "has_cname" fun _ ctx =>
      ctx.response.any fun response => response.answers.any (·.rtype == .CNAME)
  | qtype (text : String) (types : List UInt16) (h : Reads QtypeBuilder.read text types) :
      Means ("qtype " ++ text) fun _ ctx => ctx.request.questions.head?.any fun q => types.contains q.qtype.toU16
  | qclass (text : String) (classes : List UInt16) (h : Reads (QclassBuilder.read toUppercase) text classes) :
      Means ("qclass " ++ text) fun _ ctx => ctx.request.questions.head?.any fun q => classes.contains q.qclass.toU16
  | rcode (text : String) (codes : List UInt8) (h : Reads (RcodeBuilder.read toUppercase) text codes) :
      Means ("rcode " ++ text) fun _ ctx => ctx.response.any fun response => codes.contains response.rcode.toU8
  | qname (ref : String) :
      Means ("qname " ++ ref) fun _ ctx =>
        ctx.request.questions.head?.any fun q => domainsOf env registry ref (trimEndDots q.qname)
  | notQname (domain : String) :
      Means ("!qname " ++ domain) fun e ctx =>
        ctx.request.questions.head?.all fun q => e.toLowercase q.qname ≠ e.toLowercase domain
  | respIp (ref : String) : Means ("resp_ip " ++ ref) fun _ ctx => Condition.answerInSet (addressesOf registry ref) ctx
  | notRespIp (ref : String) :
      Means ("!resp_ip " ++ ref) fun _ ctx => !Condition.answerInSet (addressesOf registry ref) ctx

variable {toUppercase env registry} {conditionStr : String} {meaning : Env → Context → Bool} {c : Condition} {e : Error}

/-! ### Lists of values -/

section

variable {α : Type} {name what whats : String} {read : String → Option α} {make : List α → Condition}
  {parts : List String} {values : List α}

variable (what conditionStr) in
theorem readParts_ok : readParts what read conditionStr parts = .ok values ↔
    List.Forall₂ (fun part value => read part = some value) parts values := by
  induction parts generalizing values with
  | nil =>
    rw [readParts, List.forall₂_nil_left_iff, Except.ok.injEq]
    exact eq_comm
  | cons part parts ih =>
    rw [List.forall₂_cons_left_iff, readParts]
    cases hread : read part with
    | none => simp
    | some value =>
      cases hrest : readParts what read conditionStr parts with
      | error e =>
        have hnone : ∀ rest, ¬List.Forall₂ (fun part value => read part = some value) parts rest := by
          intro rest hforall
          rw [← ih, hrest] at hforall
          cases hforall
        simp [Except.map, hnone]
      | ok rest =>
        have hrest' := ih.mp hrest
        constructor
        · intro heq
          cases heq
          exact ⟨value, rest, rfl, hrest', rfl⟩
        · rintro ⟨value', rest', hvalue, hforall, rfl⟩
          cases hvalue
          rw [← ih, hrest] at hforall
          cases hforall
          rfl

theorem readParts_error (h : readParts what read conditionStr parts = .error e) :
    ∃ reason, e = .config (reason ++ conditionStr) := by
  induction parts with
  | nil => cases h
  | cons part parts ih =>
    rw [readParts] at h
    cases hread : read part with
    | none =>
      rw [hread] at h
      cases h
      exact ⟨_, rfl⟩
    | some value =>
      rw [hread] at h
      cases hrest : readParts what read conditionStr parts with
      | error e' =>
        rw [hrest] at h
        cases h
        exact ih hrest
      | ok rest =>
        rw [hrest] at h
        cases h

theorem buildListed_ok : buildListed name what whats read make conditionStr = .ok c ↔
    ∃ text values, conditionStr = name ++ " " ++ text ∧ Reads read text values ∧ c = make values := by
  rw [buildListed]
  cases hstrip : stripPrefix (name ++ " ") conditionStr with
  | none =>
    have hnone : ∀ text, conditionStr ≠ name ++ " " ++ text := by
      intro text heq
      rw [← stripPrefix_eq_some_iff, hstrip] at heq
      cases heq
    simp [hnone]
  | some text =>
    have htext := stripPrefix_eq_some_iff.mp hstrip
    have honly : ∀ text', conditionStr = name ++ " " ++ text' → text' = text := by
      intro text' heq
      rw [← stripPrefix_eq_some_iff, hstrip] at heq
      exact (Option.some.inj heq).symm
    dsimp only
    split
    · rename_i e hparts
      refine iff_of_false (fun h => by cases h) ?_
      rintro ⟨text', values, heq, ⟨-, hreads⟩, -⟩
      rw [honly text' heq, ← readParts_ok conditionStr what, hparts] at hreads
      cases hreads
    · rename_i hparts
      refine iff_of_false (fun h => by cases h) ?_
      rintro ⟨text', values, heq, ⟨hne, hreads⟩, -⟩
      rw [honly text' heq, ← readParts_ok conditionStr what, hparts] at hreads
      cases hreads
      exact hne rfl
    · rename_i values hne hparts
      constructor
      · intro h
        cases h
        exact ⟨text, values, htext, ⟨hne, (readParts_ok conditionStr what).mp hparts⟩, rfl⟩
      · rintro ⟨text', values', heq, ⟨-, hreads⟩, rfl⟩
        rw [honly text' heq, ← readParts_ok conditionStr what, hparts] at hreads
        cases hreads
        rfl

theorem buildListed_error (h : buildListed name what whats read make conditionStr = .error e) :
    ∃ reason, e = .config (reason ++ conditionStr) := by
  rw [buildListed] at h
  split at h
  · cases h
    exact ⟨_, rfl⟩
  · split at h
    · rename_i hparts
      cases h
      exact readParts_error hparts
    · cases h
      exact ⟨_, rfl⟩
    · cases h

end

/-! ### Each builder -/

/-- What a builder accepts is a condition with that meaning, and its errors show the text. -/
structure Sound (toUppercase : String → String) (env : RuleEnv) (registry : PluginRegistry)
    (build : String → Except Error Condition) : Prop where
  ok : ∀ {conditionStr c}, build conditionStr = .ok c →
    Means toUppercase env registry conditionStr fun e ctx => c.eval e ctx
  error : ∀ {conditionStr e}, build conditionStr = .error e → ∃ reason, e = .config (reason ++ conditionStr)

theorem buildBare_sound {name : String}
    (hmeans : Means toUppercase env registry name fun e ctx => c.eval e ctx) :
    Sound toUppercase env registry (buildBare name c) := by
  constructor
  · intro conditionStr c' h
    rw [buildBare] at h
    split at h
    · cases h
    · rename_i hname
      cases h
      rw [not_ne_iff.mp hname]
      exact hmeans
  · intro conditionStr e h
    rw [buildBare] at h
    split at h
    · cases h
      exact ⟨_, rfl⟩
    · cases h

theorem buildListed_sound {α : Type} {name what whats : String} {read : String → Option α} {make : List α → Condition}
    (hmeans : ∀ text values, Reads read text values →
      Means toUppercase env registry (name ++ " " ++ text) fun e ctx => (make values).eval e ctx) :
    Sound toUppercase env registry (buildListed name what whats read make) := by
  constructor
  · intro conditionStr c h
    obtain ⟨text, values, rfl, hreads, rfl⟩ := buildListed_ok.mp h
    exact hmeans text values hreads
  · exact buildListed_error

theorem sound_of_build (name : String) {build : String → Except Error Condition}
    (hbuild : ∀ ref, ∃ c, build (name ++ ref) = .ok c ∧
      Means toUppercase env registry (name ++ ref) fun e ctx => c.eval e ctx)
    (hnone : ∀ conditionStr, stripPrefix name conditionStr = none →
      ∃ reason, build conditionStr = .error (.config (reason ++ conditionStr))) :
    Sound toUppercase env registry build := by
  constructor
  · intro conditionStr c h
    cases hstrip : stripPrefix name conditionStr with
    | none =>
      obtain ⟨reason, herror⟩ := hnone conditionStr hstrip
      rw [herror] at h
      cases h
    | some ref =>
      obtain rfl := stripPrefix_eq_some_iff.mp hstrip
      obtain ⟨c', hc', hmeans⟩ := hbuild ref
      rw [hc'] at h
      cases h
      exact hmeans
  · intro conditionStr e h
    cases hstrip : stripPrefix name conditionStr with
    | none =>
      obtain ⟨reason, herror⟩ := hnone conditionStr hstrip
      rw [herror] at h
      cases h
      exact ⟨reason, rfl⟩
    | some ref =>
      obtain rfl := stripPrefix_eq_some_iff.mp hstrip
      obtain ⟨c', hc', -⟩ := hbuild ref
      rw [hc'] at h
      cases h

variable (env registry) in
theorem QnameBuilder.build_means (ref : String) : ∃ c, build env registry ("qname " ++ ref) = .ok c ∧
    (fun e ctx => c.eval e ctx) = fun (_ : Env) (ctx : Context) =>
      ctx.request.questions.head?.any fun q => domainsOf env registry ref (trimEndDots q.qname) := by
  obtain ⟨c, hbuild, heval⟩ := build_eq env registry ref
  refine ⟨c, hbuild, ?_⟩
  funext e ctx
  exact heval e ctx

theorem answerInSet_none (ctx : Context) : Condition.answerInSet (fun _ => false) ctx = false := by
  rw [Condition.answerInSet]
  cases ctx.response with
  | none => rfl
  | some response => simp

variable (registry) in
theorem RespIpBuilder.build_means (ref : String) : ∃ c, build registry ("resp_ip " ++ ref) = .ok c ∧
    (fun e ctx => c.eval e ctx) = fun (_ : Env) (ctx : Context) =>
      Condition.answerInSet (addressesOf registry ref) ctx := by
  rw [build, stripPrefix_eq_some_iff.mpr rfl]
  unfold addressesOf
  dsimp only
  cases registry (referredName ref) with
  | none => exact ⟨_, rfl, funext₂ fun _ ctx => (answerInSet_none ctx).symm⟩
  | some plugin =>
    cases plugin with
    | ipSet p => exact ⟨_, rfl, rfl⟩
    | domainSet p => exact ⟨_, rfl, funext₂ fun _ ctx => (answerInSet_none ctx).symm⟩
    | other name => exact ⟨_, ite_self _, funext₂ fun _ ctx => (answerInSet_none ctx).symm⟩

variable (registry) in
theorem RespIpNegBuilder.build_means (ref : String) : ∃ c, build registry ("!resp_ip " ++ ref) = .ok c ∧
    (fun e ctx => c.eval e ctx) = fun (_ : Env) (ctx : Context) =>
      !Condition.answerInSet (addressesOf registry ref) ctx := by
  obtain ⟨condition, negated, hbuild, hneg, heval⟩ := RespIpBuilder.build_eq registry ref
  obtain ⟨c, hc, hmeans⟩ := RespIpBuilder.build_means registry ref
  rw [hbuild] at hc
  cases hc
  refine ⟨negated, hneg, ?_⟩
  funext e ctx
  rw [heval]
  exact congrArg (! ·) (congrFun (congrFun hmeans e) ctx)

theorem mem_conditionBuilders {b : ConditionBuilder} (hb : b ∈ conditionBuilders toUppercase env registry) :
    Sound toUppercase env registry b.build := by
  rw [conditionBuilders] at hb
  simp only [List.mem_cons, List.not_mem_nil, or_false] at hb
  obtain rfl | rfl | rfl | rfl | rfl | rfl | rfl | rfl | rfl := hb
  · exact buildBare_sound .hasResp
  · apply sound_of_build "resp_ip "
    · intro ref
      obtain ⟨c, hc, hmeans⟩ := RespIpBuilder.build_means registry ref
      exact ⟨c, hc, hmeans ▸ .respIp ref⟩
    · intro conditionStr hnone
      exact ⟨"Invalid resp_ip format: ", by simp only [RespIpBuilder.build, hnone]⟩
  · apply sound_of_build "!resp_ip "
    · intro ref
      obtain ⟨c, hc, hmeans⟩ := RespIpNegBuilder.build_means registry ref
      exact ⟨c, hc, hmeans ▸ .notRespIp ref⟩
    · intro conditionStr hnone
      exact ⟨"Invalid !resp_ip format: ", by simp only [RespIpNegBuilder.build, hnone]⟩
  · apply sound_of_build "qname "
    · intro ref
      obtain ⟨c, hc, hmeans⟩ := QnameBuilder.build_means env registry ref
      exact ⟨c, hc, hmeans ▸ .qname ref⟩
    · intro conditionStr hnone
      exact ⟨"Invalid qname format: ", by simp only [QnameBuilder.build, hnone]⟩
  · apply sound_of_build "!qname "
    · intro domain
      exact ⟨_, QnameNegBuilder.build_eq domain, .notQname domain⟩
    · intro conditionStr hnone
      exact ⟨"Invalid !qname format: ", by simp only [QnameNegBuilder.build, hnone]⟩
  · exact buildListed_sound fun text types h => .qtype text types h
  · exact buildListed_sound fun text classes h => .qclass text classes h
  · exact buildListed_sound fun text codes h => .rcode text codes h
  · exact buildBare_sound .hasCname

theorem map_name_conditionBuilders : (conditionBuilders toUppercase env registry).map (·.name) =
    ["has_resp", "resp_ip", "!resp_ip", "qname", "!qname", "qtype", "qclass", "rcode", "has_cname"] := rfl

theorem registered_conditionBuilders : Registered (conditionBuilders toUppercase env registry) := by
  constructor
  · intro b hb
    have hname := List.mem_map_of_mem (f := ConditionBuilder.name) hb
    rw [map_name_conditionBuilders] at hname
    have hwords : ∀ name ∈ ["has_resp", "resp_ip", "!resp_ip", "qname", "!qname", "qtype", "qclass", "rcode",
        "has_cname"], IsWord name := by
      decide
    exact hwords b.name hname
  · rw [map_name_conditionBuilders]
    decide

theorem namesApart_conditionBuilders : NamesApart (conditionBuilders toUppercase env registry) := by
  intro a ha b hb hclaim
  have hname := List.mem_map_of_mem (f := ConditionBuilder.name) ha
  have hname' := List.mem_map_of_mem (f := ConditionBuilder.name) hb
  rw [map_name_conditionBuilders] at hname hname'
  have hapart : ∀ name ∈ ["has_resp", "resp_ip", "!resp_ip", "qname", "!qname", "qtype", "qclass", "rcode",
      "has_cname"], ∀ name' ∈ ["has_resp", "resp_ip", "!resp_ip", "qname", "!qname", "qtype", "qclass", "rcode",
      "has_cname"], Claims name.toList name'.toList → name = name' := by
    decide
  exact hapart a.name hname b.name hname' hclaim

/-- A text with a meaning has the name of a builder as its first word, and the builder accepts it. -/
theorem Means.build (h : Means toUppercase env registry conditionStr meaning) :
    ∃ b ∈ conditionBuilders toUppercase env registry, conditionName conditionStr = b.name ∧
      ∃ c, b.build conditionStr = .ok c ∧ (fun e ctx => c.eval e ctx) = meaning := by
  have hword : ∀ b ∈ conditionBuilders toUppercase env registry, ∀ args,
      conditionName (b.name ++ " " ++ args) = b.name :=
    fun b hb args => conditionName_args (registered_conditionBuilders.words b hb) args
  have hbare : ∀ b ∈ conditionBuilders toUppercase env registry, conditionName b.name = b.name :=
    fun b hb => conditionName_self (registered_conditionBuilders.words b hb)
  cases h with
  | hasResp =>
    have hb : (⟨"has_resp", HasRespBuilder.build⟩ : ConditionBuilder) ∈ conditionBuilders toUppercase env registry := by
      simp [conditionBuilders]
    exact ⟨_, hb, hbare _ hb, .hasResp, rfl, rfl⟩
  | hasCname =>
    have hb : (⟨"has_cname", HasCnameBuilder.build⟩ : ConditionBuilder) ∈
        conditionBuilders toUppercase env registry := by
      simp [conditionBuilders]
    exact ⟨_, hb, hbare _ hb, .hasCname, rfl, rfl⟩
  | qtype text types hreads =>
    have hb : (⟨"qtype", QtypeBuilder.build⟩ : ConditionBuilder) ∈ conditionBuilders toUppercase env registry := by
      simp [conditionBuilders]
    exact ⟨_, hb, hword _ hb text, .qtype types, buildListed_ok.mpr ⟨text, types, rfl, hreads, rfl⟩, rfl⟩
  | qclass text classes hreads =>
    have hb : (⟨"qclass", QclassBuilder.build toUppercase⟩ : ConditionBuilder) ∈
        conditionBuilders toUppercase env registry := by
      simp [conditionBuilders]
    exact ⟨_, hb, hword _ hb text, .qclass classes, buildListed_ok.mpr ⟨text, classes, rfl, hreads, rfl⟩, rfl⟩
  | rcode text codes hreads =>
    have hb : (⟨"rcode", RcodeBuilder.build toUppercase⟩ : ConditionBuilder) ∈
        conditionBuilders toUppercase env registry := by
      simp [conditionBuilders]
    exact ⟨_, hb, hword _ hb text, .rcode codes, buildListed_ok.mpr ⟨text, codes, rfl, hreads, rfl⟩, rfl⟩
  | qname ref =>
    have hb : (⟨"qname", QnameBuilder.build env registry⟩ : ConditionBuilder) ∈
        conditionBuilders toUppercase env registry := by
      simp [conditionBuilders]
    exact ⟨_, hb, hword _ hb ref, QnameBuilder.build_means env registry ref⟩
  | notQname domain =>
    have hb : (⟨"!qname", QnameNegBuilder.build⟩ : ConditionBuilder) ∈ conditionBuilders toUppercase env registry := by
      simp [conditionBuilders]
    exact ⟨_, hb, hword _ hb domain, .notQname domain, QnameNegBuilder.build_eq domain, rfl⟩
  | respIp ref =>
    have hb : (⟨"resp_ip", RespIpBuilder.build registry⟩ : ConditionBuilder) ∈
        conditionBuilders toUppercase env registry := by
      simp [conditionBuilders]
    exact ⟨_, hb, hword _ hb ref, RespIpBuilder.build_means registry ref⟩
  | notRespIp ref =>
    have hb : (⟨"!resp_ip", RespIpNegBuilder.build registry⟩ : ConditionBuilder) ∈
        conditionBuilders toUppercase env registry := by
      simp [conditionBuilders]
    exact ⟨_, hb, hword _ hb ref, RespIpNegBuilder.build_means registry ref⟩

/-! ### The registry -/

variable {order : List ConditionBuilder}

/-- In every order a text is accepted with a meaning exactly if it is of a form with that meaning, and is refused with an error that shows it if it is of none. -/
theorem parseCondition_iff (hperm : (conditionBuilders toUppercase env registry).Perm order) (conditionStr : String) :
    (∀ meaning, (∃ c, parseCondition order conditionStr = .ok c ∧ (fun e ctx => c.eval e ctx) = meaning) ↔
      Means toUppercase env registry conditionStr meaning) ∧
    ((∀ meaning, ¬Means toUppercase env registry conditionStr meaning) →
      ∃ reason, parseCondition order conditionStr = .error (.config (reason ++ conditionStr))) := by
  have hsame : parseCondition order conditionStr =
      parseCondition (conditionBuilders toUppercase env registry) conditionStr := by
    rw [parseCondition, parseCondition, registered_conditionBuilders.getBuilder_perm namesApart_conditionBuilders hperm]
  have hsound : Sound toUppercase env registry (parseCondition (conditionBuilders toUppercase env registry)) := by
    constructor
    · intro conditionStr c h
      rw [parseCondition] at h
      split at h
      · rename_i b hb
        exact (mem_conditionBuilders (mem_of_getBuilder hb)).ok h
      · cases h
    · intro conditionStr e h
      rw [parseCondition] at h
      split at h
      · rename_i b hb
        exact (mem_conditionBuilders (mem_of_getBuilder hb)).error h
      · cases h
        exact ⟨_, rfl⟩
  rw [hsame]
  constructor
  · intro meaning
    constructor
    · rintro ⟨c, hc, rfl⟩
      exact hsound.ok hc
    · intro hmeans
      obtain ⟨b, hb, hname, c, hc, heval⟩ := hmeans.build
      refine ⟨c, ?_, heval⟩
      rw [parseCondition, registered_conditionBuilders.getBuilder_eq hb hname]
      exact hc
  · intro hnone
    cases hparse : parseCondition (conditionBuilders toUppercase env registry) conditionStr with
    | ok c => exact absurd (hsound.ok hparse) (hnone _)
    | error e =>
      obtain ⟨reason, rfl⟩ := hsound.error hparse
      exact ⟨reason, rfl⟩

def upperAscii (s : String) : String := String.ofList (s.toList.map Char.toUpper)

/-- A code by its name in any case, and one by its number, with the registry in the reverse order. -/
theorem parseCondition_iff_rcode : ∃ c,
    parseCondition (conditionBuilders upperAscii ⟨id, fun _ => none, fun _ => none, fun _ => none⟩
      fun _ => none).reverse "rcode nxdomain 5" = .ok c ∧
    (fun e ctx => c.eval e ctx) = fun (_ : Env) (ctx : Context) =>
      ctx.response.any fun response => [3, 5].contains response.rcode.toU8 := by
  have hreads : Reads (RcodeBuilder.read upperAscii) "nxdomain 5" [3, 5] := by
    refine ⟨List.cons_ne_nil _ _, ?_⟩
    have hwords : splitWhitespace "nxdomain 5" = ["nxdomain", "5"] := by
      decide
    rw [hwords]
    exact .cons (by decide) (.cons (by decide) .nil)
  exact ((parseCondition_iff (List.reverse_perm _).symm "rcode nxdomain 5").1 _).mpr (.rcode "nxdomain 5" [3, 5] hreads)

end Lazydns
