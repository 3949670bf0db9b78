import Lazydns.Audit.Event
import Lazydns.Property.Response

/-!
# What the query log says of a request

An entry is made from the context in which a request ends, after all plugins. So it speaks of the response that the client gets, as long as there is one: a request that no plugin answers is answered with SERVFAIL, and its entry has no response code. What it says of the question, the client and the protocol is what came in, unless a plugin renamed the question or has one of these metadata keys for itself.
-/

namespace Lazydns

open Dns

variable {toText : IpAddr → String} {timestamp : String} {elapsed : Nat → Nat} {ctx : Context} {question : Question}
  {entry : QueryLogEntry}

/-! ### One entry -/

/-- What an entry says of a context. -/
structure QueryLogEntry.Describes (toText : IpAddr → String) (ctx : Context) (question : Question)
    (entry : QueryLogEntry) : Prop where
  queryId : entry.queryId = ctx.request.id
  protocol : entry.protocol = (ctx.getString "protocol").getD "unknown"
  clientIp : entry.clientIp = ctx.getIp "client_ip"
  qname : entry.qname = question.qname
  qtype : entry.qtype = question.qtype.debug
  qclass : entry.qclass = question.qclass.debug
  rcode : entry.rcode = ctx.response.map fun response => response.rcode.debug
  answerCount : entry.answerCount = ctx.response.map fun response => response.answers.length
  cached : entry.cached = ctx.response.map fun _ => (ctx.getBool "response_from_cache").getD false
  answers : entry.answers.getD [] = (ctx.response.map fun response => answerIps toText response.answers).getD []

theorem questionEntry_eq :
    questionEntry timestamp ctx question =
      { QueryLogEntry.new timestamp ctx.request.id ((ctx.getString "protocol").getD "unknown") question.qname
          question.qtype.debug question.qclass.debug with clientIp := ctx.getIp "client_ip" } := by
  rw [questionEntry]
  split
  · rename_i hip
    rw [hip]
    rfl
  · rename_i hip
    rw [hip]
    rfl

theorem questionEntry_describes (hnone : ctx.response = none) :
    (questionEntry timestamp ctx question).Describes toText ctx question := by
  rw [questionEntry_eq]
  refine ⟨rfl, rfl, rfl, rfl, rfl, rfl, ?_, ?_, ?_, ?_⟩
  · rw [hnone]
    rfl
  · rw [hnone]
    rfl
  · rw [hnone]
    rfl
  · rw [hnone]
    rfl

theorem attachResponse_describes {response : Message} (hsome : ctx.response = some response) (us : Nat) :
    ((questionEntry timestamp ctx question).attachResponse toText ctx us response).Describes toText ctx question := by
  rw [questionEntry_eq]
  unfold QueryLogEntry.attachResponse
  by_cases hempty : (answerIps toText response.answers).isEmpty
  · simp only [if_pos hempty]
    refine ⟨rfl, rfl, rfl, rfl, rfl, rfl, ?_, ?_, ?_, ?_⟩
    · rw [hsome]
      rfl
    · rw [hsome]
      rfl
    · rw [hsome]
      rfl
    · rw [hsome]
      exact (List.isEmpty_iff.mp hempty).symm
  · simp only [if_neg hempty]
    refine ⟨rfl, rfl, rfl, rfl, rfl, rfl, ?_, ?_, ?_, ?_⟩
    · rw [hsome]
      rfl
    · rw [hsome]
      rfl
    · rw [hsome]
      rfl
    · rw [hsome]
      rfl

/-- Only a request without a question, or for service discovery, is not logged. -/
theorem logQueryForContext_eq_none_iff :
    logQueryForContext toText timestamp elapsed ctx = none ↔
      ∀ question, ctx.request.questions.head? = some question → isDnsSdQuery question.qname = true := by
  rw [logQueryForContext]
  split
  · rename_i hnone
    simp [hnone]
  · rename_i question hquestion
    rw [hquestion]
    by_cases hdnsSd : isDnsSdQuery question.qname
    · simp [hdnsSd]
    · rw [if_neg hdnsSd]
      refine iff_of_false ?_ fun h => hdnsSd (h question rfl)
      split
      · exact Option.some_ne_none _
      · exact Option.some_ne_none _

theorem logQueryForContext_describes (h : logQueryForContext toText timestamp elapsed ctx = some entry) :
    ∃ question, ctx.request.questions.head? = some question ∧ entry.Describes toText ctx question := by
  rw [logQueryForContext] at h
  split at h
  · cases h
  · rename_i question hquestion
    refine ⟨question, hquestion, ?_⟩
    split at h
    · cases h
    · split at h
      · rename_i response hsome
        cases h
        exact attachResponse_describes hsome _
      · rename_i hnone
        cases h
        exact questionEntry_describes hnone

/-! ### A run of the server -/

/-- What came in is what the context of a job still says: its request, or that its question was renamed, its client and its protocol. -/
structure Job.Recorded (job : Job) (ctx : Context) : Prop where
  request : ctx.From job.request.message
  clientIp : ctx.getIp "client_ip" = job.request.clientInfo.map ClientInfo.ip
  protocol : ctx.getString "protocol" = some job.request.protocol.toString

/-- The plugin writes neither of the keys that the query log reads of what came in. -/
def Leaf.KeepsOrigin (l : Leaf) : Prop := "client_ip" ∉ l.keys ∧ "protocol" ∉ l.keys

namespace Job.Recorded

variable {job : Job} {ctx' : Context}

theorem of_metadata (h : job.Recorded ctx) (hfrom : ctx'.From job.request.message)
    (hip : ctx'.metadata "client_ip" = ctx.metadata "client_ip")
    (hprotocol : ctx'.metadata "protocol" = ctx.metadata "protocol") : job.Recorded ctx' where
  request := hfrom
  clientIp := by
    rw [Context.getIp, hip]
    exact h.clientIp
  protocol := by
    rw [Context.getString, hprotocol]
    exact h.protocol

theorem controlFree (job : Job) : ControlFree job.Recorded where
  record := fun ctx tag index h => h.of_metadata ((Context.From.controlFree _).record ctx tag index h.request) rfl rfl
  setFlag := fun ctx value h => by
    apply h.of_metadata ((Context.From.controlFree _).setFlag ctx value h.request)
    · rw [Context.setMetadata_metadata, Function.update_of_ne (by decide)]
    · rw [Context.setMetadata_metadata, Function.update_of_ne (by decide)]
  remove := fun ctx key hkey h => by
    have hne : ∀ key', key' ∉ controlKeys → key' ≠ key := fun key' hnot heq => hnot (heq ▸ hkey)
    apply h.of_metadata ((Context.From.controlFree _).remove ctx key hkey h.request)
    · rw [Context.removeMetadata_metadata, Function.update_of_ne (hne _ (by decide))]
    · rw [Context.removeMetadata_metadata, Function.update_of_ne (hne _ (by decide))]

theorem preserves (env : Env) (job : Job) {l : Leaf} (hl : l.KeepsOrigin) :
    l.Preserves env (fun _ => True) (fun _ _ => True) job.Recorded fun _ => True := by
  intro ctx hctx
  refine Proc.Within.mono (Leaf.execute_within (A := fun _ => True) (fun _ _ _ _ _ _ => trivial) l ctx)
    (fun _ _ _ _ => trivial) fun r hr => ⟨?_, fun _ _ => trivial⟩
  exact hctx.of_metadata (hctx.request.grows hr.1.grows) (hr.1.grows.metadata _ hl.1) (hr.1.grows.metadata _ hl.2)

theorem initial (job : Job) (now : Nat) :
    job.Recorded (PluginHandler.initialContext now job.entry job.request) where
  request := PluginHandler.initialContext_from now job.entry job.request
  clientIp := by
    cases hclient : job.request.clientInfo with
    | none =>
      simp [PluginHandler.initialContext, PluginHandler.setClientInfo, hclient, Context.getIp, Context.new,
        PluginHandler.markRefresh_metadata]
    | some info =>
      simp [PluginHandler.initialContext, PluginHandler.setClientInfo, hclient, Context.getIp, Context.new,
        PluginHandler.markRefresh_metadata]
  protocol := by
    simp [PluginHandler.initialContext, Context.getString, PluginHandler.markRefresh_metadata]

end Job.Recorded

/-- The plugins of the registry leave to the query log what it reads, and so does everything else that happens. -/
theorem service_recorded {env : Env} {reg : Registry} (hreg : reg.All Leaf.KeepsOrigin) (fuel : Nat) :
    (service env reg fuel).Keeps (fun _ => True) (fun _ => True) fun job r => r.1 = .ok () → job.Recorded r.2 where
  outside := fun _ _ _ => ⟨trivial, fun _ _ => trivial⟩
  body := fun job _ => by
    have hrun : Proc.Within (fun _ => True) (fun _ _ => True) (fun r : Outcome => r.1 = .ok () → job.Recorded r.2)
        (PluginHandler.process env reg fuel job.entry job.request) := by
      have hleaves : reg.All (Leaf.Preserves env (fun _ => True) (fun _ _ => True) job.Recorded fun _ => True) :=
        fun name plugin hplugin => (hreg name plugin hplugin).mono fun l hl => Job.Recorded.preserves env job hl
      exact Proc.Within.mono (PluginHandler.process_within (Job.Recorded.controlFree job) trivial hleaves
        (fun _ _ _ _ _ => trivial) (fun _ _ => trivial) fuel (Job.Recorded.initial job)) (fun _ _ _ h => h)
        fun r hr _ => hr.1
    cases job with
    | client entry req => exact hrun
    | refresh i task => exact Proc.Within.bind hrun fun r hr => Proc.within_atomic.mpr fun w _ => ⟨trivial, hr⟩
  cancelled := fun job _ => by
    cases job with
    | client entry req => exact nofun
    | refresh i task => exact Proc.within_atomic.mpr fun w _ => ⟨trivial, nofun⟩

/-- What an entry says of a job that has ended and of the response to it. -/
structure QueryLogEntry.Reports (toText : IpAddr → String) (job : Job) (r : Outcome) (response : Message)
    (entry : QueryLogEntry) : Prop where
  queryId : entry.queryId = job.request.message.id ∧ entry.queryId = response.id
  clientIp : entry.clientIp = job.request.clientInfo.map ClientInfo.ip
  protocol : entry.protocol = job.request.protocol.toString
  question : .renamed ∉ r.2.trace → ∃ question, job.request.message.questions.head? = some question ∧
    entry.qname = question.qname ∧ entry.qtype = question.qtype.debug ∧ entry.qclass = question.qclass.debug
  rcode : entry.rcode = if r.2.hasResponse then some response.rcode.debug else none
  answerCount : entry.answerCount = if r.2.hasResponse then some response.answers.length else none
  answers : entry.answers.getD [] = answerIps toText response.answers

/-- In every run of the server, whatever is logged of a request that gets a response is about this request, its client and this response; but the SERVFAIL for a request that no plugin answers is not in its entry. Unless its question was renamed, a request is not logged only if it has none or is for service discovery. -/
theorem logged_of_run (toText : IpAddr → String) (timestamp : String) (elapsed : Nat → Nat) {ι : Type}
    [DecidableEq ι] {env : Env} {reg : Registry} (hreg : reg.All Leaf.KeepsOrigin) (fuel : Nat) (w : World)
    (events : List (Event ι Job Outside)) {i : ι} {job : Job} {r : Outcome} {response : Message}
    (hjob : ((Pool.init w).run (service env reg fuel) events).jobs i = some (job, .ret r))
    (hanswer : r.answer = .ok response) :
    (∀ entry, logQueryForContext toText timestamp elapsed r.2 = some entry →
      entry.Reports toText job r response) ∧
    (.renamed ∉ r.2.trace → (logQueryForContext toText timestamp elapsed r.2 = none ↔
      ∀ question, job.request.message.questions.head? = some question →
        isDnsSdQuery question.qname = true)) := by
  have hholds : ((Pool.init w).run (service env reg fuel) events).Holds (fun _ => True) (fun _ => True)
      fun job r => r.1 = .ok () → job.Recorded r.2 :=
    Pool.run_holds (service_recorded hreg fuel) (fun _ _ _ => trivial) (Pool.holds_init trivial)
  obtain ⟨result, ctx⟩ := r
  cases result with
  | error stop => cases hanswer
  | ok u =>
    obtain ⟨hfrom, hip, hprotocol⟩ := hholds.result hjob rfl
    obtain rfl := Except.ok.inj hanswer
    refine ⟨fun entry hentry => ?_, fun hrenamed => ?_⟩
    · obtain ⟨question, hquestion, hdescribes⟩ := logQueryForContext_describes hentry
      refine ⟨⟨?_, hdescribes.queryId⟩, hdescribes.clientIp.trans hip, ?_, fun hrenamed => ?_, ?_, ?_, ?_⟩
      · exact hdescribes.queryId.trans hfrom.requestId
      · rw [hdescribes.protocol, hprotocol]
        rfl
      · rw [hfrom.request.resolve_right hrenamed] at hquestion
        exact ⟨question, hquestion, hdescribes.qname, hdescribes.qtype, hdescribes.qclass⟩
      · rw [hdescribes.rcode, Context.hasResponse]
        cases hresponse : ctx.response <;> simp [PluginHandler.finish, hresponse]
      · rw [hdescribes.answerCount, Context.hasResponse]
        cases hresponse : ctx.response <;> simp [PluginHandler.finish, hresponse]
      · rw [hdescribes.answers]
        cases hresponse : ctx.response <;>
          simp [PluginHandler.finish, hresponse, PluginHandler.defaultResponse, Message.new, answerIps]
    · rw [logQueryForContext_eq_none_iff, hfrom.request.resolve_right hrenamed]

def Registry.blackhole : Registry :=
  .ofList [("main", .leaf (.plain (.blackhole ⟨[0], []⟩)))]

theorem Registry.blackhole_keepsOrigin : Registry.blackhole.All Leaf.KeepsOrigin := by
  intro name plugin hplugin
  rw [Registry.blackhole, Registry.ofList, List.foldr_cons, List.foldr_nil] at hplugin
  by_cases hname : name = "main"
  · subst hname
    rw [AList.lookup_insert] at hplugin
    cases hplugin
    exact .leaf ⟨by decide, by decide⟩
  · rw [AList.lookup_insert_ne hname] at hplugin
    cases hplugin

/-- A query that a black hole answers, without a client's address. -/
theorem logged_of_run_blackhole :
    ∃ (events : List (Event Unit Job Outside)) (r : Outcome) (entry : QueryLogEntry),
      ((Pool.init World.fresh).run (service (.answering (.error (.other "down"))) .blackhole 2)
        events).result () = some r ∧
      logQueryForContext (fun _ => "0.0.0.0") "" id r.2 = some entry ∧
      entry.queryId = 7 ∧ entry.clientIp = none ∧ entry.protocol = "udp" ∧ entry.qname = "a." ∧
      entry.rcode = some "NoError" := by
  let env := Env.answering (.error (.other "down"))
  let job := Job.client "main" (.new (.ask 7 "a." .A) .udp)
  obtain ⟨events, hend, -⟩ := Pool.exists_start_run_alone (service env .blackhole 2) () job World.fresh
  let r := ((Job.body env .blackhole 2 job).run World.fresh).1
  have hanswer : r.answer = .ok (PluginHandler.finish r.2) := by decide +kernel
  have hlogged := logged_of_run (fun _ => "0.0.0.0") "" id Registry.blackhole_keepsOrigin 2 World.fresh _
    hend hanswer
  have hrenamed : .renamed ∉ r.2.trace := by decide +kernel
  obtain ⟨entry, hentry⟩ := Option.ne_none_iff_exists'.mp (mt (hlogged.2 hrenamed).mp fun h =>
    absurd (h ⟨"a.", .A, .IN⟩ (by decide +kernel)) (by decide +kernel))
  have hreports := hlogged.1 entry hentry
  obtain ⟨question, hquestion, hqname, -⟩ := hreports.question hrenamed
  obtain rfl : (⟨"a.", .A, .IN⟩ : Question) = question := Option.some.inj hquestion
  have hrcode : (PluginHandler.finish r.2).rcode.debug = "NoError" := by decide +kernel
  have hresponse : r.2.hasResponse = true := by decide +kernel
  refine ⟨_, r, entry, Pool.result_eq_some.mpr ⟨job, hend⟩, hentry, hreports.queryId.1, hreports.clientIp,
    hreports.protocol, hqname, ?_⟩
  exact hreports.rcode.trans ((if_pos hresponse).trans (congrArg some hrcode))

end Lazydns
