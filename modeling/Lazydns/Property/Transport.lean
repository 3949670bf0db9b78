import Lazydns.Server.Service
import Lazydns.Server.Transport

/-!
# What the transport of a request decides

The transports that know their client agree on every client policy: a run of the server in which requests arrive over others of them, from the same addresses, has the same refusals and the same answers. An address counts as what the socket reports, so an IPv4 client behind a mapped address is another client, and a request without an address is judged as one from the local host.
-/

namespace Lazydns

open Dns

/-- The transports that hand the client's address on; over HTTPS, `X-Forwarded-For` is not trusted. -/
inductive KnownTransport where
  | udp | tcp | dot
  | doh (forwarded : Option IpAddr)

def KnownTransport.requestContext (peer : SocketAddr) (request : Message) :
    KnownTransport → RequestContext
  | udp => UdpServer.requestContext peer request
  | tcp => TcpServer.requestContext peer request
  | dot => DotServer.requestContext (some peer) request
  | doh forwarded => DohServer.requestContext forwarded false peer request

/-- The same job, but for the transport and the port of the client. -/
inductive Job.OtherTransport : Job → Job → Prop
  | client {entry : String} {request : Message} (t t' : KnownTransport) {peer peer' : SocketAddr}
      (hip : peer.ip = peer'.ip) :
      OtherTransport (.client entry (t.requestContext peer request))
        (.client entry (t'.requestContext peer' request))
  | refresh (i : Nat) (task : RefreshTask) : OtherTransport (.refresh i task) (.refresh i task)

theorem KnownTransport.requestContext_message (t : KnownTransport) (peer : SocketAddr)
    (request : Message) : (t.requestContext peer request).message = request := by
  cases t <;> rfl

theorem KnownTransport.requestContext_clientInfo (t : KnownTransport) (peer : SocketAddr)
    (request : Message) :
    (t.requestContext peer request).clientInfo = some (ClientInfo.ofAddr peer) := by
  cases t with
  | udp => rfl
  | tcp => rfl
  | dot => rfl
  | doh forwarded => rfl

theorem Job.OtherTransport.alike {job job' : Job} (h : job.OtherTransport job') : job.Alike job' := by
  cases h with
  | @client entry request t t' peer peer' hip =>
    have hmessage : (t.requestContext peer request).message =
        (t'.requestContext peer' request).message := by
      rw [t.requestContext_message, t'.requestContext_message]
    refine .client fun now => PluginHandler.initialContext_same (congrArg _ hmessage) ?_ (.inr ?_)
      now entry
    · rw [t.requestContext_clientInfo, t'.requestContext_clientInfo]
      exact congrArg some hip
    · rw [hmessage]
  | refresh i task => exact .refresh i task

theorem service_blind_transport (env : Env) (reg : Registry) (fuel : Nat) :
    (service env reg fuel).Blind (fun _ => True) (World.Same id Eq) (fun _ => Outcome.Same)
      Job.OtherTransport where
  body := fun _ _ h => Job.body_sim limiterSim_eq h.alike
  cancelled := fun _ _ h => Job.cancelled_sim h.alike
  outside := fun e w w' _ h => by
    obtain ⟨hstate, hjob⟩ := e.apply_same (fun p p' now heq => congrArg _ heq) h
    refine ⟨hstate, ?_⟩
    change Option.Rel _ (e.apply w).1 (e.apply w').1
    rw [← hjob]
    cases hstarted : (e.apply w).1 with
    | none => exact .none
    | some job =>
      refine .some ?_
      cases e with
      | takeTask i =>
        rw [Outside.apply] at hstarted
        split at hstarted
        · cases hstarted
          exact .refresh _ _
        · cases hstarted
      | _ => cases hstarted

/-- On the transports that know their client, the client policies judge a request by the address of its socket, and whichever of them the requests of a run arrive over, every request meets the same refusals and gets the same answer. -/
theorem policy_transport_independent {ι : Type} [DecidableEq ι] (env : Env) (reg : Registry)
    (fuel : Nat) :
    (∀ (t : KnownTransport) (peer : SocketAddr) (request : Message) (now : Nat) (entry : String),
      (PluginHandler.initialContext now entry (t.requestContext peer request)).getIp "client_ip" =
        some peer.ip) ∧
    ∀ (w : World) (events events' : List (Event ι Job Outside)),
      List.Forall₂ (Event.Rel Job.OtherTransport) events events' → ∀ (i : ι) (r : Outcome),
      ((Pool.init w).run (service env reg fuel) events).result i = some r →
      ∃ r', ((Pool.init w).run (service env reg fuel) events').result i = some r' ∧
        r'.2.trace = r.2.trace ∧ r'.answer = r.answer := by
  constructor
  · intro t peer request now entry
    rw [PluginHandler.initialContext, t.requestContext_clientInfo]
    simp [PluginHandler.setClientInfo, Context.getIp, PluginHandler.markRefresh_metadata,
      ClientInfo.ofAddr]
  · intro w events events' hevents i r hr
    have hpurged := (Pool.purged_init (World.Same.refl (fun _ => rfl) w)).run
      (service_blind_transport env reg fuel) (Event.purge_of_forall₂ hevents)
      (Pool.along_of_forall _ (fun _ _ => ⟨trivial, fun _ _ _ _ _ hgone => hgone.elim⟩) _ _)
    obtain ⟨_, r', hr', hsame⟩ := hpurged.result (fun hgone => hgone) hr
    exact ⟨r', hr', hsame.2.trace.symm, hsame.answer_eq.symm⟩

/-! ### The other ways in -/

/-- An access list that allows one network and denies everyone else. -/
def Registry.allowOnly (network : IpNet) : Registry :=
  .ofList [("acl", .leaf (.plain (.queryAcl ⟨[⟨network, .allow⟩], .deny⟩)))]

/-- The refusals a query meets there. -/
def refusalsOf (network : IpNet) (req : RequestContext) : List TraceEvent :=
  ((PluginHandler.process (.answering (.ok Message.new)) (.allowOnly network) 2 "acl" req).run
    World.fresh).1.2.trace

/-- The client 10.0.0.1 is allowed as such and denied behind the mapped address ::ffff:10.0.0.1; the client 192.0.2.1 is denied over UDP and counts as the local host over QUIC. -/
theorem policy_depends_on_transport :
    refusalsOf (.v4 0x0A000000 8)
        (UdpServer.requestContext ⟨.v4 0x0A000001, 5353⟩ (.ask 7 "a." .A)) ≠
      refusalsOf (.v4 0x0A000000 8)
        (UdpServer.requestContext ⟨.v6 0xFFFF0A000001, 5353⟩ (.ask 7 "a." .A)) ∧
    refusalsOf (.v4 0x7F000000 8)
        (UdpServer.requestContext ⟨.v4 0xC0000201, 5353⟩ (.ask 7 "a." .A)) ≠
      refusalsOf (.v4 0x7F000000 8) (DoqServer.requestContext (.ask 7 "a." .A)) := by
  decide +kernel

end Lazydns
