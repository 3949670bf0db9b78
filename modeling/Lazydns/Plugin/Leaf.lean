import Lazydns.Plugin.Annotate
import Lazydns.Plugin.Edit
import Lazydns.Plugin.Forward

/-!
# All plugins that hold no other plugins

A local plugin only touches the context of its request; the others also read and change the shared state. Sequences and fallbacks, which run other plugins, come on top.
-/

namespace Lazydns

open Dns

/-! ### Flow control -/

def AcceptPlugin.execute (ctx : Context) : Context := ctx.setMetadata RETURN_FLAG (.bool true)

def ReturnPlugin.execute (ctx : Context) : Context := ctx.setMetadata RETURN_FLAG (.bool true)

def JumpPlugin.execute (target : String) (ctx : Context) : Context :=
  (ctx.setMetadata "jump_target" (.string target)).setMetadata RETURN_FLAG (.bool true)

def GotoPlugin.execute (label : String) (ctx : Context) : Context :=
  (ctx.setMetadata "goto_label" (.string label)).setMetadata RETURN_FLAG (.bool true)

/-! ### Plugins without shared state -/

/-- The plugins whose run only reads and changes the context. `observer` stands for those that only log, count or call out: `debug_print`, `collector`, `ros_addrlist`. -/
inductive LocalPlugin where
  | accept
  | ret
  | reject (rcode : UInt8)
  | jump (target : String)
  | goto (label : String)
  | queryAcl (p : QueryAclPlugin)
  | blackhole (p : BlackholePlugin)
  | arbitrary (p : ArbitraryPlugin)
  | hosts (p : HostsPlugin)
  | redirect (p : RedirectPlugin)
  | ttl (p : TtlPlugin)
  | preferIpv4
  | preferIpv6
  | dualSelector (preference : IpPreference)
  | dropResp
  | mark (p : MarkPlugin)
  | querySummary (p : QuerySummaryPlugin)
  | ecs (p : EcsPlugin)
  | edns0Opt (p : Edns0OptPlugin)
  | geoIp (p : GeoIpPlugin)
  | geoSite (p : GeoSitePlugin)
  | domainSet (name : String)
  | ipSetDataset (name : String)
  | ipSet (p : IpSetPlugin)
  | nftSet (p : NftSetPlugin)
  | observer

def LocalPlugin.execute (env : Env) : LocalPlugin → Context → Context
  | .accept => AcceptPlugin.execute
  | .ret => ReturnPlugin.execute
  | .reject rcode => RejectPlugin.execute rcode
  | .jump target => JumpPlugin.execute target
  | .goto label => GotoPlugin.execute label
  | .queryAcl p => p.execute
  | .blackhole p => p.execute
  | .arbitrary p => p.execute env
  | .hosts p => p.execute env
  | .redirect p => p.execute env
  | .ttl p => p.execute
  | .preferIpv4 => PreferIpv4Plugin.execute
  | .preferIpv6 => PreferIpv6Plugin.execute
  | .dualSelector preference => DualSelectorPlugin.execute preference
  | .dropResp => DropRespPlugin.execute
  | .mark p => p.execute
  | .querySummary p => p.execute
  | .ecs p => p.execute env
  | .edns0Opt p => p.execute
  | .geoIp p => p.execute
  | .geoSite p => p.execute
  | .domainSet name => DomainSetPlugin.execute name
  | .ipSetDataset name => IpSetDataset.execute name
  | .ipSet p => p.execute
  | .nftSet p => p.execute
  | .observer => id

/-! ### Plugins with shared state -/

/-- A plugin with state is given by the address of its object. -/
inductive Leaf where
  | plain (p : LocalPlugin)
  | cache (i : Nat)
  | rateLimit (i : Nat)
  | domainValidator (i : Nat)
  | reverseLookup (i : Nat)
  | forward (i : Nat)
  | sleep (duration : Nat)
  | downloader

namespace Leaf

def executeCache (env : Env) (i : Nat) (ctx : Context) (w : World) : Context × World :=
  let r := (w.caches i).execute env w.now ctx
  (r.1, w.setCache i r.2)

def executeRateLimit (i : Nat) (ctx : Context) (w : World) : Context × World :=
  let r := (w.limiters i).execute w.now ctx
  (r.1, w.setLimiter i r.2)

def executeDomainValidator (i : Nat) (ctx : Context) (w : World) : Context × World :=
  let r := (w.validators i).execute ctx
  (r.1, w.setValidator i r.2)

def executeReverseLookup (env : Env) (i : Nat) (ctx : Context) (w : World) : Context × World :=
  let r := (w.reverses i).execute env w.now ctx
  (r.1, w.setReverse i r.2)

def executeDownloader (env : Env) (ctx : Context) (w : World) : Outcome × World :=
  (((env.download w.downloads).mapError Stop.error, ctx), { w with downloads := w.downloads + 1 })

def execute (env : Env) (ctx : Context) : Leaf → Run
  | .plain p => .done (p.execute env ctx)
  | .cache i => .step (executeCache env i ctx)
  | .rateLimit i => .step (executeRateLimit i ctx)
  | .domainValidator i => .step (executeDomainValidator i ctx)
  | .reverseLookup i => .step (executeReverseLookup env i ctx)
  | .forward i => ForwardPlugin.execute env i ctx
  | .sleep duration => .step fun w => (ctx, { w with now := w.now + duration })
  | .downloader => .atomic (executeDownloader env ctx)

end Leaf

end Lazydns
