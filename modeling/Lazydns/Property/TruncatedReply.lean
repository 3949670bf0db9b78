import Lazydns.Property.Provenance
import Lazydns.Server.Transport

/-!
# Replies that an upstream cut off

Nothing but an upstream and the UDP server sets the TC bit, and nothing clears it: the forward plugin leaves a reply as it came and does not ask for the rest over TCP, a cache stores and serves it like any other, and every server sends the bit it finds. So a client on a stream may get a reply that was cut off for UDP.
-/

namespace Lazydns

open Dns

variable {env : Env}

/-! ### Where the bit comes from -/

namespace ForwardPlugin

variable {ctx ctx' : Context}

end ForwardPlugin

end Lazydns
