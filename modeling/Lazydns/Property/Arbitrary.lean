import Lazydns.Lib.Fallible
import Lazydns.Plugin.Arbitrary
import Lazydns.Server.Service
import Lazydns.Dns.IpText

/-!
# Whether arbitrary answers fit the question

The plugin answers with all records under the name, whatever their type, and a record's owner is the name in its configuration, in lower case and without dots at its end. So the answer fits where the name is asked for in this form and all its records are of the type asked for or a CNAME.
-/

namespace Lazydns

open Dns

namespace ArbitraryPlugin

/-! ### What the table holds -/

section

variable {env : Env} {toUppercase : String → String} {read : String → Except String String}

private theorem foldlM_pushes {α : Type} (f : ArbitraryPlugin → α → Except FileParse ArbitraryPlugin)
    (g : α → List ResourceRecord) (hstep : ∀ p a p', f p a = .ok p' → p' = (g a).foldl push p)
    {l : List α} {p p' : ArbitraryPlugin} (hfold : l.foldlM f p = .ok p') : p' = (l.flatMap g).foldl push p := by
  refine Fallible.foldlM_ok (fun done q => q = (done.flatMap g).foldl push p) ?_ [] rfl hfold
  intro done a q q' hq ha
  rw [hstep q a q' ha, hq, List.flatMap_append, List.foldl_append, List.flatMap_singleton]

theorem addRule_ok {p p' : ArbitraryPlugin} {rule : String × Nat} (h : addRule env toUppercase p rule = .ok p') :
    p' = (parseRrLine env toUppercase rule.1).toList.foldl push p := by
  rw [addRule] at h
  cases hparse : parseRrLine env toUppercase rule.1 with
  | none =>
    rw [hparse] at h
    cases h
  | some rr =>
    rw [hparse] at h
    cases h
    rfl

theorem addLine_ok {file : String} {p p' : ArbitraryPlugin} {line : String × Nat}
    (h : addLine env toUppercase file p line = .ok p') :
    p' = (if isComment (trim line.1) then none
      else parseRrLine env toUppercase (trim line.1)).toList.foldl push p := by
  rw [addLine] at h
  by_cases hcomment : isComment (trim line.1)
  · rw [if_pos hcomment] at h ⊢
    cases h
    rfl
  · rw [if_neg hcomment] at h ⊢
    cases hparse : parseRrLine env toUppercase (trim line.1) with
    | none =>
      rw [hparse] at h
      cases h
    | some rr =>
      rw [hparse] at h
      cases h
      rfl

private theorem flatMap_zipIdx {α β : Type} (f : α → Option β) (l : List α) (n : Nat) :
    ((l.zipIdx n).flatMap fun a => (f a.1).toList) = l.filterMap f := by
  induction l generalizing n with
  | nil => rfl
  | cons a l ih =>
    rw [List.zipIdx_cons, List.flatMap_cons, ih, List.filterMap_cons]
    cases f a <;> rfl

theorem addFile_ok {p p' : ArbitraryPlugin} {file : String} (h : addFile env toUppercase read p file = .ok p') :
    p' = (fileRecords env toUppercase read file).foldl push p := by
  rw [addFile] at h
  cases hread : read file with
  | error e =>
    rw [hread] at h
    cases h
  | ok content =>
    rw [hread] at h
    have hp := foldlM_pushes (addLine env toUppercase file) (fun line => (if isComment (trim line.1) then none
      else parseRrLine env toUppercase (trim line.1)).toList) (fun _ _ _ hline => addLine_ok hline) h
    rw [fileRecords, hread, hp]
    dsimp only
    rw [flatMap_zipIdx fun line =>
      if isComment (trim line) then none else parseRrLine env toUppercase (trim line)]

theorem new_ok {args : ArbitraryArgs} {p : ArbitraryPlugin} (h : new env toUppercase read args = .ok p) :
    p = ofRecords (records env toUppercase read args) := by
  rw [new] at h
  obtain ⟨p₁, hrules, hfiles⟩ := Fallible.bind_eq_ok.mp h
  have hp₁ := foldlM_pushes (addRule env toUppercase) (fun rule => (parseRrLine env toUppercase rule.1).toList)
    (fun _ _ _ hrule => addRule_ok hrule) hrules
  have hp : p = ((args.files.getD []).flatMap (fileRecords env toUppercase read)).foldl push p₁ :=
    foldlM_pushes _ _ (fun _ _ _ hfile => addFile_ok hfile) hfiles
  rw [hp, hp₁, flatMap_zipIdx, ← List.foldl_append]
  rfl

theorem new_eq {args : ArbitraryArgs} (h : (new env toUppercase read args).toOption.isSome) :
    new env toUppercase read args = .ok (ofRecords (records env toUppercase read args)) := by
  cases hnew : new env toUppercase read args with
  | error e =>
    rw [hnew] at h
    cases h
  | ok p => rw [new_ok hnew]

end

theorem map_push (p : ArbitraryPlugin) (rr : ResourceRecord) :
    (p.push rr).map = Function.update p.map rr.name (some ((p.map rr.name).getD [] ++ [rr])) := rfl

theorem map_foldl_push (rrs : List ResourceRecord) (p : ArbitraryPlugin) (key : String) :
    (rrs.foldl push p).map key = if rrs.filter (·.name = key) = [] then p.map key
      else some ((p.map key).getD [] ++ rrs.filter (·.name = key)) := by
  induction rrs generalizing p with
  | nil => rfl
  | cons rr rrs ih =>
    rw [List.foldl_cons, ih, map_push]
    by_cases hkey : rr.name = key
    · subst hkey
      rw [Function.update_self, List.filter_cons_of_pos (by simp)]
      by_cases hnil : rrs.filter (·.name = rr.name) = []
      · simp [hnil]
      · simp [hnil]
    · rw [Function.update_of_ne (Ne.symm hkey), List.filter_cons_of_neg (by simpa using hkey)]

theorem map_ofRecords (rrs : List ResourceRecord) (key : String) :
    (ofRecords rrs).map key =
      if rrs.filter (·.name = key) = [] then none else some (rrs.filter (·.name = key)) := by
  rw [ofRecords, map_foldl_push, Option.getD_none, List.nil_append]

/-! ### The answer -/

/-- The answer section that the plugin gives a request, if any. -/
def answers (env : Env) (p : ArbitraryPlugin) (request : Message) : List ResourceRecord :=
  ((p.execute env (.new request)).response.map (·.answers)).getD []

/-- Every answer is a record of the name asked for and of the type asked for, or a CNAME; every configured record of this name and type is there once. -/
structure Fits (env : Env) (records : List ResourceRecord) (q : Question) (answers : List ResourceRecord) : Prop where
  owner : ∀ rr ∈ answers, rr.name = q.qname
  type : ∀ rr ∈ answers, rr.rtype = q.qtype ∨ rr.rtype = .CNAME
  complete : ∀ rr ∈ records, rr.name = env.toLowercase (trimEndDots q.qname) → rr.rtype = q.qtype → answers.count rr = 1

def named (env : Env) (records : List ResourceRecord) (q : Question) : List ResourceRecord :=
  records.filter (·.name = env.toLowercase (trimEndDots q.qname))

variable {env : Env}

theorem execute_of_question (p : ArbitraryPlugin) {ctx : Context} {q : Question}
    (hq : ctx.request.questions.head? = some q) :
    p.execute env ctx = ((p.map (env.toLowercase (trimEndDots q.qname))).map fun rrs =>
      answerFirst ctx q (replyTo ctx.request [q] rrs)).getD ctx := by
  rw [execute, hq]
  dsimp only
  cases p.map (env.toLowercase (trimEndDots q.qname)) <;> rfl

theorem answers_ofRecords {records : List ResourceRecord} {request : Message} {q : Question}
    (hq : request.questions.head? = some q) : answers env (ofRecords records) request = named env records q := by
  have hmap : (ofRecords records).map (env.toLowercase (trimEndDots q.qname)) =
      if named env records q = [] then none else some (named env records q) := map_ofRecords ..
  rw [answers, execute_of_question _ hq, hmap]
  by_cases hnil : named env records q = []
  · rw [if_pos hnil, hnil]
    rfl
  · rw [if_neg hnil]
    rfl

/-- What the plugin does to a request that has a response already: its own response takes the place of that one. -/
theorem execute_response (p : ArbitraryPlugin) (ctx : Context) :
    (p.execute env ctx).response = ((p.execute env (.new ctx.request)).response).or ctx.response := by
  cases hq : ctx.request.questions.head? with
  | none =>
    have hleft : ∀ ctx' : Context, ctx'.request = ctx.request → p.execute env ctx' = ctx' := by
      intro ctx' hrequest
      rw [execute, hrequest, hq]
    rw [hleft ctx rfl, hleft (.new ctx.request) rfl]
    rfl
  | some q =>
    have hnew : (Context.new ctx.request).request.questions.head? = some q := hq
    rw [p.execute_of_question hq, p.execute_of_question hnew]
    cases p.map (env.toLowercase (trimEndDots q.qname)) <;> rfl

private theorem count_ofType {rtype : RecordType} {rr : ResourceRecord} (htype : rr.rtype = rtype)
    (rrs : List ResourceRecord) : (rrs.filter (·.rtype = rtype)).count rr = rrs.count rr :=
  List.count_filter (decide_eq_true htype)

theorem fits_named_iff {records : List ResourceRecord} {q : Question} :
    Fits env records q (named env records q) ↔ named env records q = [] ∨
      env.toLowercase (trimEndDots q.qname) = q.qname ∧
        (∀ rr ∈ named env records q, rr.rtype = q.qtype ∨ rr.rtype = .CNAME) ∧
        ((named env records q).filter (·.rtype = q.qtype)).Nodup := by
  have hmem : ∀ rr, rr ∈ named env records q ↔ rr ∈ records ∧ rr.name = env.toLowercase (trimEndDots q.qname) := by
    intro rr
    rw [named, List.mem_filter, decide_eq_true_iff]
  constructor
  · intro hfits
    by_cases hnil : named env records q = []
    · exact .inl hnil
    · obtain ⟨rr, hrr⟩ := List.exists_mem_of_ne_nil _ hnil
      refine .inr ⟨?_, hfits.type, ?_⟩
      · rw [← ((hmem rr).mp hrr).2, hfits.owner rr hrr]
      · rw [List.nodup_iff_count_eq_one]
        intro rr hrr
        obtain ⟨hnamed, htype⟩ := List.mem_filter.mp hrr
        obtain ⟨hrecord, hname⟩ := (hmem rr).mp hnamed
        rw [count_ofType (of_decide_eq_true htype)]
        exact hfits.complete rr hrecord hname (of_decide_eq_true htype)
  · rintro (hnil | ⟨hname, htype, hnodup⟩)
    · rw [hnil]
      refine ⟨List.forall_mem_nil _, List.forall_mem_nil _, ?_⟩
      intro rr hrecord hrr
      have hnamed := (hmem rr).mpr ⟨hrecord, hrr⟩
      rw [hnil] at hnamed
      exact absurd hnamed List.not_mem_nil
    · refine ⟨?_, htype, ?_⟩
      · intro rr hrr
        rw [((hmem rr).mp hrr).2, hname]
      · intro rr hrecord hrr hqtype
        have hnamed := (hmem rr).mpr ⟨hrecord, hrr⟩
        rw [← count_ofType hqtype]
        exact List.nodup_iff_count_eq_one.mp hnodup rr (List.mem_filter.mpr ⟨hnamed, decide_eq_true hqtype⟩)

def envOfTexts : Env := { Env.answering (.error (.other "")) with parseIp := IpText.parse }

/-- The plugin with the only rule `example.com AAAA 2001:db8::1` answers a question for an IPv4 address. -/
theorem not_fits_otherType :
    let args : ArbitraryArgs := ⟨some ["example.com AAAA 2001:db8::1"], none⟩
    let rrs := records envOfTexts String.toUpper .error args
    new envOfTexts String.toUpper .error args = .ok (ofRecords rrs) ∧
      ¬Fits envOfTexts rrs ⟨"example.com", .A, .IN⟩ (answers envOfTexts (ofRecords rrs) (.ask 1 "example.com" .A)) := by
  intro args rrs
  refine ⟨new_eq (by decide +kernel), ?_⟩
  rw [answers_ofRecords rfl]
  intro hfits
  exact absurd (hfits.type ⟨"example.com", .AAAA, .IN, 300, .AAAA 0x20010db8000000000000000000000001#128⟩
    (by decide +kernel)) (by decide +kernel)

/-- An answer fits exactly if nothing is configured under the name, or the name is asked for as it is kept, all its records are of the type asked for or a CNAME, and none of the type is configured twice. -/
theorem fits_iff {toUppercase : String → String} {read : String → Except String String} {args : ArbitraryArgs}
    {p : ArbitraryPlugin} (hnew : new env toUppercase read args = .ok p) (ctx : Context) :
    (p.execute env ctx).response = ((p.execute env (.new ctx.request)).response).or ctx.response ∧
    ((∀ q ∈ ctx.request.questions.head?,
      Fits env (records env toUppercase read args) q (answers env p ctx.request)) ↔
      ∀ q ∈ ctx.request.questions.head?,
        let rrs := named env (records env toUppercase read args) q
        rrs = [] ∨ env.toLowercase (trimEndDots q.qname) = q.qname ∧
          (∀ rr ∈ rrs, rr.rtype = q.qtype ∨ rr.rtype = .CNAME) ∧ (rrs.filter (·.rtype = q.qtype)).Nodup) := by
  refine ⟨p.execute_response ctx, ?_⟩
  refine forall_congr' fun q => forall_congr' fun hq => ?_
  rw [new_ok hnew, answers_ofRecords hq]
  exact fits_named_iff

theorem fits_iff_alias :
    let args : ArbitraryArgs := ⟨some ["www.example.com. IN CNAME example.com", "example.com a 192.0.2.1"], none⟩
    let rrs := records envOfTexts String.toUpper .error args
    let ctx : Context := .new (.ask 1 "example.com" .A)
    let p := ofRecords rrs
    (∀ q ∈ ctx.request.questions.head?, Fits envOfTexts rrs q (answers envOfTexts p ctx.request)) ∧
      answers envOfTexts p ctx.request = [⟨"example.com", .A, .IN, 300, .A 0xC0000201⟩] := by
  intro args rrs ctx p
  refine ⟨(fits_iff (new_eq (by decide +kernel)) ctx).2.mpr fun q hq => ?_, by decide +kernel⟩
  obtain rfl : q = ⟨"example.com", .A, .IN⟩ := (Option.some.inj hq).symm
  exact .inr ⟨by decide +kernel, by decide +kernel, by decide +kernel⟩

end ArbitraryPlugin

end Lazydns
