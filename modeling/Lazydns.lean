import Lazydns.Lib.Proc
import Lazydns.Lib.Pool
import Lazydns.Lib.Lru
import Lazydns.Lib.Machine
import Lazydns.Lib.Bytes
import Lazydns.Lib.Tlv
import Lazydns.Lib.Grouped
import Lazydns.Lib.Folds
import Lazydns.Lib.Template
import Lazydns.Lib.Slots
import Lazydns.Lib.FileStore
import Lazydns.Dns.Message
import Lazydns.Dns.Wire
import Lazydns.Dns.WireRules
import Lazydns.Plugin.Env
import Lazydns.Plugin.Context
import Lazydns.Plugin.Cache
import Lazydns.Plugin.CacheSpec
import Lazydns.Plugin.CacheKey
import Lazydns.Plugin.Policy
import Lazydns.Plugin.Reply
import Lazydns.Plugin.Annotate
import Lazydns.Plugin.Edit
import Lazydns.Plugin.World
import Lazydns.Plugin.Forward
import Lazydns.Plugin.Leaf
import Lazydns.Plugin.Mux
import Lazydns.Plugin.MuxRules
import Lazydns.Plugin.Refresh
import Lazydns.Plugin.Background
import Lazydns.Plugin.Accesses
import Lazydns.Plugin.Persistence
import Lazydns.Plugin.PersistenceRules
import Lazydns.Plugin.DumpReader
import Lazydns.Plugin.Dataset
import Lazydns.Plugin.Geo
import Lazydns.Plugin.Arbitrary
import Lazydns.Plugin.Sequence
import Lazydns.Plugin.Builder
import Lazydns.Plugin.BuilderRules
import Lazydns.Plugin.ConditionBuilder
import Lazydns.Plugin.Resolve
import Lazydns.Plugin.View
import Lazydns.Plugin.CacheView
import Lazydns.Plugin.Lockstep
import Lazydns.Plugin.Preserve
import Lazydns.Plugin.Frame
import Lazydns.Plugin.Child
import Lazydns.Server.Handler
import Lazydns.Server.HandlerRules
import Lazydns.Server.Service
import Lazydns.Server.Effects
import Lazydns.Server.Agree
import Lazydns.Server.Calls
import Lazydns.Server.OpenCalls
import Lazydns.Server.Transport
import Lazydns.Server.Stream
import Lazydns.Property.Identity
import Lazydns.Property.RoundTrip
import Lazydns.Property.Transport
import Lazydns.Property.Truncation
import Lazydns.Property.Store
import Lazydns.Property.Transparency
import Lazydns.Property.Isolation
import Lazydns.Property.Response
import Lazydns.Property.TruncatedReply
import Lazydns.Property.Answered
import Lazydns.Property.Ttl
import Lazydns.Property.Stale
import Lazydns.Property.Survival
import Lazydns.Property.Termination
import Lazydns.Property.Capacity
import Lazydns.Property.ControlFlow
import Lazydns.Property.Negation
import Lazydns.Property.Denial
import Lazydns.Property.Fallback
import Lazydns.Property.Failover
import Lazydns.Property.Average
import Lazydns.Property.Ownership
import Lazydns.Property.Delivery
import Lazydns.Property.Dedup
import Lazydns.Property.Expiry
import Lazydns.Property.DumpPrefix
import Lazydns.Property.Dumps
import Lazydns.Property.Recency
import Lazydns.Property.Reload
import Lazydns.Property.EdnsOptions
import Lazydns.Property.Order
import Lazydns.Property.RuleFile
import Lazydns.Property.NetworkFile
import Lazydns.Property.HostsFile
import Lazydns.Property.ClientSubnet
import Lazydns.Property.RateLimit
import Lazydns.Property.DomainVerdict
import Lazydns.Property.DomainGrammar
import Lazydns.Property.Framing
import Lazydns.Property.Includes
import Lazydns.Property.ReverseName
import Lazydns.Property.ReverseTable
import Lazydns.Property.Arguments
import Lazydns.Property.Geo
import Lazydns.Property.Redirect
import Lazydns.Property.Arbitrary
import Lazydns.Property.AddressSet
import Lazydns.Property.Override
import Lazydns.Property.OverrideOrder
import Lazydns.Property.Substitution
import Lazydns.Property.Listen
import Lazydns.Property.ReloadOrder
import Lazydns.Property.WatcherDelivery
import Lazydns.Property.WatcherLoop
import Lazydns.Property.Downloads
import Lazydns.Property.Shutdown
import Lazydns.Property.QueueDepth
import Lazydns.Property.Pruning
import Lazydns.Property.Buckets
import Lazydns.Property.AlertStore
import Lazydns.Property.KeySeparation
import Lazydns.Property.EventDelivery
import Lazydns.Property.BusCounters
import Lazydns.Property.QueryLog
import Lazydns.Property.ErrorCount
import Lazydns.Property.AlertLoop
import Lazydns.Property.AcceptLoop
import Lazydns.Property.Provenance
import Lazydns.Property.Cron
import Lazydns.Property.CronShutdown
import Lazydns.Property.QueueShutdown
import Lazydns.Property.Conditions
import Lazydns.Property.WebSocket
import Lazydns.Property.EventStream
