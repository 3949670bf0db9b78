import Lazydns.Property.RoundTrip
import Lazydns.Server.Effects
import Lazydns.Server.Transport

/-!
# What a response looks like

Of every response that a run of the server returns: whose id it has, and whether it is marked as a response to the question that was asked. Each is an invariant of the cached responses and of the responses under way, through every plugin, and so holds in every run.
-/

namespace Lazydns

open Dns

/-! ### The response bit and the questions -/

/-- The upstreams mark their replies as responses and repeat the questions of the queries they are sent. -/
def Env.UpstreamsEcho (env : Env) (toUtf8 : Hickory.Name → String) : Prop :=
  ∀ n addr query reply, (env.exchange n addr query).1 = .ok reply →
    reply.qr = true ∧ reply.questions = query.queries.map (convertHickoryQuery toUtf8)

/-- The response has the header and the questions of an upstream's reply to the request. -/
def Env.Forwarded (env : Env) (request m : Message) : Prop :=
  ∃ n addr reply, (ForwardPlugin.forwardQuery env n request addr).1 = .ok reply ∧ reply.SameHeader m

variable {env : Env} {toUtf8 : Hickory.Name → String}

theorem Env.Forwarded.sameHeader {request m m' : Message} (h : env.Forwarded request m)
    (hm : m.SameHeader m') : env.Forwarded request m' := by
  obtain ⟨n, addr, reply, hreply, hsame⟩ := h
  exact ⟨n, addr, reply, hreply, hm.qr.trans hsame.qr, hm.tc.trans hsame.tc, hm.rcode.trans hsame.rcode,
    hm.questions.trans hsame.questions⟩

/-- A forwarded response is marked, and repeats the request's questions exactly if these come back. -/
theorem Env.Forwarded.questions_iff {request m : Message} (hup : env.UpstreamsEcho toUtf8)
    (h : env.Forwarded request m) :
    m.qr = true ∧ (m.questions = request.questions ↔
      ∀ q ∈ request.questions, q.ComesBack toUtf8 env.fromUtf8) := by
  obtain ⟨n, addr, reply, hreply, hsame⟩ := h
  obtain ⟨query, raw, hsent, hexchange, rfl⟩ := ForwardPlugin.forwardQuery_eq_ok hreply
  obtain ⟨h, hserialize, rfl⟩ := Option.map_eq_some_iff.mp hsent
  obtain ⟨hqr, hquestions⟩ := hup _ _ _ _ hexchange
  have hqueries : (ForwardPlugin.wireQuery env n addr h).queries = h.queries := by
    rw [ForwardPlugin.wireQuery]
    split <;> rfl
  have hrestore : (ForwardPlugin.restoreId request addr raw).qr = raw.qr ∧
      (ForwardPlugin.restoreId request addr raw).questions = raw.questions := by
    rw [ForwardPlugin.restoreId]
    split <;> exact ⟨rfl, rfl⟩
  rw [hsame.qr, hsame.questions, hrestore.1, hrestore.2, hquestions, hqueries]
  exact ⟨hqr, map_convertHickoryQuery_eq_iff (env.serialize_queries hserialize)⟩

/-- The request of a job is the one it was given, and a response under way is marked as one and has the request's questions, unless it is an upstream's, or the trace says that the question was renamed or that only the first one was answered. -/
structure Job.Answering (env : Env) (job : Job) (ctx : Context) : Prop where
  request : ctx.From job.request.message
  response : ∀ m, ctx.response = some m → m.qr = true ∧
    (m.questions = job.request.message.questions ∨ env.Forwarded job.request.message m ∨
      .renamed ∈ ctx.trace ∨ .answeredFirst ∈ ctx.trace)

namespace Job.Answering

variable {job : Job} {l : Leaf} {ctx ctx' : Context}

theorem controlFree (env : Env) (job : Job) : ControlFree (job.Answering env) where
  record := fun ctx tag index h => {
    request := (Context.From.controlFree _).record ctx tag index h.request
    response := fun m hm => by
      obtain ⟨hqr, hquestions⟩ := h.response m hm
      exact ⟨hqr, hquestions.imp id
        (Or.imp id (Or.imp (List.mem_append_left _) (List.mem_append_left _)))⟩ }
  setFlag := fun ctx value h => ⟨(Context.From.controlFree _).setFlag ctx value h.request, h.response⟩
  remove := fun ctx key hkey h =>
    ⟨(Context.From.controlFree _).remove ctx key hkey h.request, h.response⟩

theorem leaf (hup : env.UpstreamsEcho toUtf8) (h : job.Answering env ctx)
    (heffect : LeafEffect env (fun m => m.qr = true) l ctx ctx') : job.Answering env ctx' where
  request := h.request.grows heffect.grows
  response := fun m hm => by
    -- a response to the request at hand is one to the job's request
    have hown : m.questions = ctx.request.questions →
        m.questions = job.request.message.questions ∨ env.Forwarded job.request.message m ∨
          .renamed ∈ ctx'.trace ∨ .answeredFirst ∈ ctx'.trace := by
      intro hquestions
      rcases h.request.request with heq | hrenamed
      · exact .inl (by rw [hquestions, heq])
      · exact .inr (.inr (.inl (heffect.grows.mem_trace hrenamed)))
    cases heffect.origin m hm with
    | kept old hold hsame =>
      obtain ⟨hqr, hquestions⟩ := h.response old hold
      refine ⟨hsame.qr.trans hqr, ?_⟩
      rw [hsame.questions]
      exact hquestions.imp id (Or.imp (·.sameHeader hsame)
        (Or.imp heffect.grows.mem_trace heffect.grows.mem_trace))
    | built hqr _ hquestions =>
      exact ⟨hqr, hquestions.elim hown fun hfirst => .inr (.inr (.inr hfirst))⟩
    | served entry hentry hqr _ hquestions => exact ⟨hqr.trans hentry, hown hquestions⟩
    | upstream n addr hreply =>
      have hforwarded : env.Forwarded ctx.request m := ⟨n, addr, m, hreply, .refl m⟩
      refine ⟨(hforwarded.questions_iff hup).1, ?_⟩
      rcases h.request.request with heq | hrenamed
      · exact .inr (.inl (heq ▸ hforwarded))
      · exact .inr (.inr (.inl (heffect.grows.mem_trace hrenamed)))

end Job.Answering

theorem Outcome.answer_eq_ok {r : Outcome} {response : Message} (h : r.answer = .ok response) :
    response = PluginHandler.finish r.2 := by
  obtain ⟨result, ctx⟩ := r
  cases result with
  | error stop => cases h
  | ok u => exact (Except.ok.inj h).symm

def Registry.cachedForward : Registry :=
  .ofList [("cache", .leaf (.cache 0)),
    ("main", .sequence none [.exec (.leaf (.cache 0)), .exec (.leaf (.forward 0))])]

/-- An upstream that knows one address, and repeats the question it is asked. -/
def Env.echoing : Env :=
  { Env.answering (.ok Message.new) with
    fromUtf8 := ofDotted
    exchange := fun _ _ query => (.ok { convertFromHickory dotted query with
      qr := true
      answers := [⟨"a", .A, .IN, 300, .A 0⟩] }, 0) }

end Lazydns
