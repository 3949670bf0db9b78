import Lazydns.Property.Termination
import Lazydns.Server.OpenCalls
import Lazydns.Server.Transport

/-!
# Whether a query is answered

A request gets its response exactly if its jumps and gotos come to an end, no plugin fails that is called outside all fallbacks, and what is left can be encoded. The error of a plugin, on the other hand, goes all the way up: over UDP and TCP the query is dropped, and a DoT connection ends with all that is still to come on it.
-/

namespace Lazydns

open Dns

section

variable {env : Env} {reg : Registry} {fuel : Nat} {entry : String} {req : RequestContext} {w : World}

namespace PluginHandler

end PluginHandler

end

end Lazydns
