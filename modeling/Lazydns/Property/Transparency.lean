import Lazydns.Dns.WireRules
import Lazydns.Plugin.CacheKey
import Lazydns.Server.Service

/-!
# What a cache key leaves out

Two requests with one cache key agree in their first question, in AD and CD, and in whether they ask for DNSSEC records. More than that goes upstream: the other header fields, further questions, the records, and the rest of the EDNS record. Two such requests are sent as one query exactly if they agree in these as well, and then the cached answer of one is the answer the other would get.
-/

namespace Lazydns

open Dns

namespace Transparency

/-- A message without its id and without the letter case of its first question. -/
def canonical (env : Env) (m : Message) : Message :=
  { m with
    id := 0
    questions := m.questions.modifyHead fun q => { q with qname := env.toLowercase q.qname } }

/-- What is sent upstream for a request, up to the id and the letter case of the name. -/
def sent (env : Env) (m : Message) : Option Hickory.Message :=
  convertToHickory env.fromUtf8 (canonical env m)

/-- Two messages agree in what is sent of them beyond the fields of the cache key. -/
structure SameRest (env : Env) (m m' : Message) : Prop where
  qr : m.qr = m'.qr
  opcode : convertOpCode m.opcode = convertOpCode m'.opcode
  aa : m.aa = m'.aa
  tc : m.tc = m'.tc
  rd : m.rd = m'.rd
  ra : m.ra = m'.ra
  rcode : m.rcode.toU8 = m'.rcode.toU8
  questions : m.questions.tail.mapM (convertQuestion env.fromUtf8) =
    m'.questions.tail.mapM (convertQuestion env.fromUtf8)
  answers : convertRecords env.fromUtf8 m.answers = convertRecords env.fromUtf8 m'.answers
  authority : convertRecords env.fromUtf8 m.authority = convertRecords env.fromUtf8 m'.authority
  additional : convertRecords env.fromUtf8 (m.additional.filter fun rr => (convertEdns rr).isNone) =
    convertRecords env.fromUtf8 (m'.additional.filter fun rr => (convertEdns rr).isNone)
  edns : (m.additional.filterMap convertEdns).getLast? = (m'.additional.filterMap convertEdns).getLast?

section

variable {env : Env} {m m' : Message}

theorem mapM_canonical {q : Question} {rest : List Question} (hq : m.questions = q :: rest) :
    (canonical env m).questions.mapM (convertQuestion env.fromUtf8) = do
      let head ← convertQuestion env.fromUtf8 { q with qname := env.toLowercase q.qname }
      let tail ← rest.mapM (convertQuestion env.fromUtf8)
      return head :: tail := by
  rw [canonical, hq, List.modifyHead_cons, List.mapM_cons]

theorem convertQuestion_same {q q' : Question} (hname : env.toLowercase q.qname = env.toLowercase q'.qname)
    (htype : q.qtype.toU16 = q'.qtype.toU16) :
    convertQuestion env.fromUtf8 { q with qname := env.toLowercase q.qname } =
      convertQuestion env.fromUtf8 { q' with qname := env.toLowercase q'.qname } := by
  simp only [convertQuestion, hname, htype]

theorem sent_eq (hkey : CachePlugin.SameKeyFields env m m') (hrest : SameRest env m m') :
    sent env m = sent env m' := by
  obtain ⟨q, q', hq, hq', hname, htype, -⟩ := hkey.question
  obtain ⟨rest, hm⟩ := List.head?_eq_some_iff.mp hq
  obtain ⟨rest', hm'⟩ := List.head?_eq_some_iff.mp hq'
  have htail := hrest.questions
  rw [hm, hm', List.tail_cons, List.tail_cons] at htail
  rw [sent, sent, convertToHickory, convertToHickory, mapM_canonical hm, mapM_canonical hm',
    convertQuestion_same hname htype, htail]
  simp only [canonical, hrest.qr, hrest.opcode, hrest.aa, hrest.tc, hrest.rd, hrest.ra, hkey.ad,
    hkey.cd, hrest.rcode, hrest.answers, hrest.authority, hrest.additional, hrest.edns]

theorem sameRest_of_sent {h : Hickory.Message} (hsent : sent env m = some h) (hsent' : sent env m' = some h)
    (hquestions : m.questions ≠ []) (hquestions' : m'.questions ≠ []) : SameRest env m m' := by
  obtain ⟨q, rest, hm⟩ := List.exists_cons_of_ne_nil hquestions
  obtain ⟨q', rest', hm'⟩ := List.exists_cons_of_ne_nil hquestions'
  obtain ⟨hq, hanswers, hauthority, hadditional, hh⟩ := convertToHickory_eq_some.mp hsent
  obtain ⟨hq', hanswers', hauthority', hadditional', hh'⟩ := convertToHickory_eq_some.mp hsent'
  have htail : rest.mapM (convertQuestion env.fromUtf8) = rest'.mapM (convertQuestion env.fromUtf8) := by
    rw [mapM_canonical hm] at hq
    rw [mapM_canonical hm'] at hq'
    obtain ⟨head, -, hq⟩ := Option.bind_eq_some_iff.mp hq
    obtain ⟨tail, htail, hq⟩ := Option.bind_eq_some_iff.mp hq
    obtain ⟨head', -, hq'⟩ := Option.bind_eq_some_iff.mp hq'
    obtain ⟨tail', htail', hq'⟩ := Option.bind_eq_some_iff.mp hq'
    have heq := (Option.some.inj hq).trans (Option.some.inj hq').symm
    rw [htail, htail', (List.cons.inj heq).2]
  have hfields := hh.symm.trans hh'
  simp only [canonical, Hickory.Message.mk.injEq, true_and] at hfields
  obtain ⟨hqr, hopcode, haa, htc, hrd, hra, -, -, hrcode, hedns⟩ := hfields
  exact {
    qr := hqr
    opcode := hopcode
    aa := haa
    tc := htc
    rd := hrd
    ra := hra
    rcode := UInt8.toUInt16_inj.mp hrcode
    questions := by rw [hm, hm']; exact htail
    answers := hanswers.trans hanswers'.symm
    authority := hauthority.trans hauthority'.symm
    additional := hadditional.trans hadditional'.symm
    edns := hedns }

/-! ### Serving a cached answer -/

/-- The upstreams give equal answers, up to the id and the echoed questions, to queries that are one up to id and letter case. -/
def AnswersAlike (env : Env) : Prop :=
  ∀ n n' addr m m' h h', env.serialize m = some h → env.serialize m' = some h' →
    sent env m = sent env m' →
    (env.exchange n addr (ForwardPlugin.wireQuery env n addr h)).1.map
        (fun reply => { reply with id := 0, questions := [] }) =
      (env.exchange n' addr (ForwardPlugin.wireQuery env n' addr h')).1.map
        fun reply => { reply with id := 0, questions := [] }

theorem forwardQuery_alike (hup : AnswersAlike env) (hsent : sent env m = sent env m') {n n' : Nat}
    {addr : String} {reply reply' : Message} (h : (ForwardPlugin.forwardQuery env n m addr).1 = .ok reply)
    (h' : (ForwardPlugin.forwardQuery env n' m' addr).1 = .ok reply') :
    { reply with id := 0, questions := [] } = { reply' with id := 0, questions := [] } := by
  rw [ForwardPlugin.forwardQuery] at h h'
  cases hs : env.serialize m with
  | none => simp [hs] at h
  | some q =>
    cases hs' : env.serialize m' with
    | none => simp [hs'] at h'
    | some q' =>
      have halike := hup n n' addr m m' q q' hs hs' hsent
      rw [hs] at h
      rw [hs'] at h'
      dsimp only at h h'
      generalize (env.exchange n addr (ForwardPlugin.wireQuery env n addr q)).1 = r at h halike
      generalize (env.exchange n' addr (ForwardPlugin.wireQuery env n' addr q')).1 = r' at h' halike
      have hrestore : ∀ m reply : Message,
          { ForwardPlugin.restoreId m addr reply with id := 0, questions := [] } =
            ({ reply with id := 0, questions := [] } : Message) := by
        intro m reply
        rw [ForwardPlugin.restoreId]
        split <;> rfl
      cases r with
      | error e => cases h
      | ok a =>
        cases r' with
        | error e => cases h'
        | ok a' =>
          cases Except.ok.inj h
          cases Except.ok.inj h'
          rw [hrestore, hrestore]
          exact Except.ok.inj halike

end

/-- Requests with one key agree in their first question, AD, CD and DO; they are sent as one query, up to id and letter case, exactly if they agree in the rest as well; and if they do, and the upstream answers equal queries equally, the cached answer of the one is what the upstream would answer the other. -/
theorem same_key_sent_same_iff {env : Env} {m m' : Message} {key : String}
    (hkey : CachePlugin.makeKey env m = some key) (hkey' : CachePlugin.makeKey env m' = some key) :
    CachePlugin.SameKeyFields env m m' ∧
      (∀ h h', sent env m = some h → sent env m' = some h' → (h = h' ↔ SameRest env m m')) ∧
      (SameRest env m m' → AnswersAlike env → ∀ (n n' : Nat) (addr : String) (reply reply' : Message)
        (entry : CacheEntry) (ctx : Context) (ttl : Nat),
        (ForwardPlugin.forwardQuery env n m addr).1 = .ok reply →
        (ForwardPlugin.forwardQuery env n' m' addr).1 = .ok reply' →
        entry.response = reply → ctx.request = m' →
        (CachePlugin.serveCachedResponse ctx entry ttl).response =
          some { CachePlugin.updateTtls reply' ttl with id := m'.id, questions := m'.questions }) := by
  have hsame := CachePlugin.sameKeyFields_of_makeKey hkey hkey'
  obtain ⟨q, q', hq, hq', -⟩ := hsame.question
  refine ⟨hsame, fun h h' hsent hsent' => ⟨fun heq => ?_, fun hrest => ?_⟩, ?_⟩
  · subst heq
    exact sameRest_of_sent hsent hsent' (fun hnil => by rw [hnil] at hq; cases hq)
      fun hnil => by rw [hnil] at hq'; cases hq'
  · have heq := sent_eq hsame hrest
    rw [hsent, hsent'] at heq
    exact Option.some.inj heq
  · intro hrest hup n n' addr reply reply' entry ctx ttl hreply hreply' hentry hctx
    have halike := forwardQuery_alike hup (sent_eq hsame hrest) hreply hreply'
    subst hentry hctx
    have hserved := congrArg (fun r : Message => some { CachePlugin.updateTtls r ttl with
      id := ctx.request.id
      questions := ctx.request.questions }) halike
    exact hserved

/-- The same question in another letter case is sent as the same query. -/
theorem same_key_other_case :
    let env := Env.answering (.ok Message.new)
    ∃ h h', sent env (.ask 1 "a." .A) = some h ∧ sent env (.ask 2 "A." .A) = some h' ∧ h = h' := by
  let env := Env.answering (.ok Message.new)
  have hrest : SameRest env (.ask 1 "a." .A) (.ask 2 "A." .A) :=
    ⟨rfl, rfl, rfl, rfl, rfl, rfl, rfl, rfl, rfl, rfl, rfl, rfl⟩
  have htransparent := @same_key_sent_same_iff env (.ask 1 "a." .A) (.ask 2 "A." .A) "a.:1:1:0"
    (by decide +kernel) (by decide +kernel)
  exact ⟨_, _, rfl, rfl, (htransparent.2.1 _ _ rfl rfl).mpr hrest⟩

/-- A query for `a.` and the same query with recursion not desired. -/
theorem key_ignores_rd :
    let env := Env.answering (.ok Message.new)
    let m := Message.ask 1 "a." .A
    let m' := { Message.ask 1 "a." .A with rd := false }
    CachePlugin.makeKey env m = CachePlugin.makeKey env m' ∧ CachePlugin.makeKey env m ≠ none ∧
      (sent env m).isSome ∧ sent env m ≠ sent env m' := by
  decide +kernel

end Transparency

end Lazydns
