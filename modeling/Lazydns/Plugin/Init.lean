import Lazydns.Plugin.Edit
import Lazydns.Plugin.Policy
import Lazydns.Plugin.Validation
import Lazydns.Plugin.World

/-!
# How plugins read their arguments

The `init` of the plugins whose numbers are validated. Each reads them on its own: some take numbers only, some strings as well, some fall back to a default for what they do not take, and each casts in its own way.
-/

namespace Lazydns

open Validation (digitsValue parseUnsigned)

/-! ### Numbers -/

/-- `Number::as_u64`. -/
def numberAsU64 (text : String) : Option Nat := (digitsValue text.toList).filter (· < 2 ^ 64)

/-- `Number::as_i64`. -/
def numberAsI64 (text : String) : Option Int :=
  match text.toList with
  | '-' :: digits => ((digitsValue digits).filter (· ≤ 2 ^ 63)).map fun n : Nat => -(n : Int)
  | digits => ((digitsValue digits).filter (· < 2 ^ 63)).map fun n : Nat => (n : Int)

/-- `i as uN`. -/
def castUnsigned (bits : Nat) (i : Int) : Nat := (i % 2 ^ bits).toNat

namespace Value

def asU64 : Value → Option Nat
  | number text => numberAsU64 text
  | _ => none

def asI64 : Value → Option Int
  | number text => numberAsI64 text
  | _ => none

def isTrue : Option Value → Bool
  | some (bool true) => true
  | _ => false

end Value

/-- A number that is read as an `i64` and cast; nothing else is allowed in its place. -/
def readNumber (bits default : Nat) (invalid notNumber : String) : Option Value → Except Error Nat
  | some (.number text) =>
    match numberAsI64 text with
    | some i => .ok (castUnsigned bits i)
    | none => .error (.config invalid)
  | some _ => .error (.config notNumber)
  | none => .ok default

/-! ### Cache -/

/-- What `CachePlugin::init` sets; no threshold stands for 0.05. -/
structure CacheSettings where
  maxSize : Nat
  negativeCache : Bool
  negativeTtl : Nat
  cacheTtl : Option Nat
  enableLazycache : Bool
  lazycacheThreshold : Option String
  dumpFile : Option String
  dumpIntervalSecs : Nat
  tag : Option String

namespace CacheSettings

/-- The negative TTL is looked at if negative caching is on. -/
def readNegativeTtl (config : PluginConfig) : Except Error (Option Nat) :=
  if Value.isTrue (config.effectiveArg "negative_cache") then
    (readNumber 32 300 "Invalid negative_ttl value" "negative_ttl must be a number"
      (config.effectiveArg "negative_ttl")).map some
  else .ok none

def readCacheTtl (config : PluginConfig) : Except Error (Option Nat) :=
  match config.effectiveArg "cache_ttl" with
  | some (.number text) =>
    match numberAsI64 text with
    | some i => .ok (if 0 < castUnsigned 32 i then some (castUnsigned 32 i) else none)
    | none => .error (.config "Invalid cache_ttl value")
  | _ => .ok none

def readThreshold (config : PluginConfig) : Except Error (Option String) :=
  if Value.isTrue (config.effectiveArg "enable_lazycache") then
    match config.effectiveArg "lazycache_threshold" with
    | some (.number text) => .ok (some text)
    | some _ => .error (.config "lazycache_threshold must be a number")
    | none => .ok none
  else .ok none

def readDump (config : PluginConfig) : Option String × Nat :=
  match config.effectiveArg "dump_file" with
  | some (.string s) =>
    (some s, match config.effectiveArg "dump_interval" with
      | some (.number text) => (numberAsU64 text).getD 600
      | _ => 600)
  | _ => (none, 600)

def init (config : PluginConfig) : Except Error CacheSettings := do
  let size ← readNumber 64 1024 "Invalid size value" "size must be a number" (config.effectiveArg "size")
  let negativeTtl ← readNegativeTtl config
  let cacheTtl ← readCacheTtl config
  let threshold ← readThreshold config
  return {
    maxSize := size
    negativeCache := negativeTtl.isSome
    negativeTtl := negativeTtl.getD 300
    cacheTtl
    enableLazycache := Value.isTrue (config.effectiveArg "enable_lazycache")
    lazycacheThreshold := threshold
    dumpFile := (readDump config).1
    dumpIntervalSecs := (readDump config).2
    tag := config.tag }

end CacheSettings

/-! ### Rate limit -/

namespace RateLimitPlugin

/-- An argument of the limiter: a number, also a negative one, or a string. -/
def readArg (bits default : Nat) (key : String) : Option Value → Except Error Nat
  | some (.number text) =>
    match numberAsU64 text with
    | some u => .ok (u % 2 ^ bits)
    | none =>
      match numberAsI64 text with
      | some i => .ok (castUnsigned bits i)
      | none => .error (.config ("Invalid '" ++ key ++ "' value"))
  | some (.string s) =>
    match parseUnsigned (2 ^ bits - 1) s with
    | some n => .ok n
    | none => .error (.config ("Invalid '" ++ key ++ "' string value"))
  | some _ => .error (.config ("Invalid '" ++ key ++ "' type"))
  | none => .ok default

def init (config : PluginConfig) : Except Error RateLimitPlugin := do
  let maxQueries ← readArg 32 100 "max_queries" (config.effectiveArg "max_queries")
  let windowSecs ← readArg 64 60 "window_secs" (config.effectiveArg "window_secs")
  return new maxQueries windowSecs

end RateLimitPlugin

/-! ### TTL -/

namespace TtlPlugin

/-- Zero for what is not there or no number. -/
def readArg (config : PluginConfig) (key : String) : Nat :=
  castUnsigned 32 (((config.effectiveArg key).bind Value.asI64).getD 0)

/-- `TtlPlugin::init`: three zeros become a fixed TTL. -/
def init (config : PluginConfig) : Except Error TtlPlugin :=
  let ttl := readArg config "ttl"
  let min := readArg config "min"
  let max := readArg config "max"
  .ok (if ttl = 0 ∧ min = 0 ∧ max = 0 then ⟨300, 0, 0⟩ else ⟨ttl, min, max⟩)

end TtlPlugin

/-! ### Forward -/

structure ForwardSettings where
  upstreams : List (String × Option String)
  timeoutSecs : Nat
  strategy : LoadBalanceStrategy
  healthChecksEnabled : Bool
  maxAttempts : Nat
  concurrentQueries : Bool
  tag : Option String

namespace ForwardSettings

/-- `s.trim_start_matches(p)`, with the length as fuel. -/
def trimStartMatches (p : List Char) : Nat → List Char → List Char
  | 0, s => s
  | fuel + 1, s => if p.isPrefixOf s then trimStartMatches p fuel (s.drop p.length) else s

def normalizeAddr (input : String) : String :=
  if (stripPrefix "http://" input).isSome ∨ (stripPrefix "https://" input).isSome then input
  else
    let addr := trimStartMatches "udp://".toList input.toList.length input.toList
    let addr := String.ofList (trimStartMatches "tcp://".toList addr.length addr)
    if ':' ∈ addr.toList then addr else addr ++ ":53"

/-- `split_once('|')`, the tag behind the bar. -/
def splitTag (entry : String) : String × Option String :=
  if '|' ∈ entry.toList then
    (String.ofList (entry.toList.takeWhile (· ≠ '|')), some (String.ofList ((entry.toList.dropWhile (· ≠ '|')).drop 1)))
  else (entry, none)

def readUpstream : Value → Except Error (String × Option String)
  | .string s => .ok (splitTag (normalizeAddr s))
  | .mapping entries =>
    match (Value.getKey "addr" entries).bind Value.asStr with
    | some addr => .ok (normalizeAddr addr, (Value.getKey "tag" entries).bind Value.asStr)
    | none => .error (.config "upstream mapping must contain addr")
  | _ => .error (.config "upstreams must be array of strings or mappings")

def readUpstreams (config : PluginConfig) : Except Error (List (String × Option String)) :=
  match config.effectiveArg "upstreams" with
  | none => .error (.config "upstreams is required for forward plugin")
  | some (.sequence items) => items.mapM readUpstream
  | some _ => .error (.config "upstreams must be an array")

def readStrategy (config : PluginConfig) : Except Error LoadBalanceStrategy :=
  match config.effectiveArg "strategy" with
  | some (.string s) =>
    if s = "round_robin" ∨ s = "roundrobin" then .ok .roundRobin
    else if s = "random" then .ok .random
    else if s = "fastest" then .ok .fastest
    else .error (.config ("Unknown strategy: " ++ s))
  | _ => .ok .roundRobin

/-- An optional number; what is no number does not count. -/
def readOptional (default : Nat) (invalid : String) : Option Value → Except Error Nat
  | some (.number text) =>
    match numberAsI64 text with
    | some i => .ok (castUnsigned 64 i)
    | none => .error (.config invalid)
  | _ => .ok default

def readConcurrent (config : PluginConfig) : Bool :=
  match config.effectiveArg "concurrent" with
  | some (.number text) => decide (1 < (numberAsI64 text).getD 1)
  | _ => false

/-- `ForwardPlugin::init` with `ForwardBuilder::from_args`. Health checks are on by default if the server is built with the web interface. -/
def init (web : Bool) (config : PluginConfig) : Except Error ForwardSettings := do
  let upstreams ← readUpstreams config
  let timeoutSecs ← readOptional 5 "Invalid timeout value" (config.effectiveArg "timeout")
  let strategy ← readStrategy config
  let maxAttempts ← readOptional 3 "Invalid max_attempts value" (config.effectiveArg "max_attempts")
  return {
    upstreams
    timeoutSecs
    strategy
    healthChecksEnabled := ((config.effectiveArg "health_checks").bind Value.asBool).getD web
    maxAttempts
    concurrentQueries := readConcurrent config
    tag := config.tag }

end ForwardSettings

/-! ### Downloader -/

structure FileDownloadSpec where
  url : String
  path : String
  deriving DecidableEq, Repr

structure DownloaderPlugin where
  files : List FileDownloadSpec
  timeoutSecs : Nat
  concurrent : Bool
  maxRetries : Nat
  retryDelaySecs : Nat
  deriving DecidableEq, Repr

namespace DownloaderPlugin

/-- An entry without a URL or a path is left out. -/
def readFile : Value → Option FileDownloadSpec
  | .mapping entries =>
    let url := ((Value.getKey "url" entries).bind Value.asStr).getD ""
    let path := ((Value.getKey "path" entries).bind Value.asStr).getD ""
    if url ≠ "" ∧ path ≠ "" then some ⟨url, path⟩ else none
  | _ => none

def readFiles (config : PluginConfig) : Except Error (List FileDownloadSpec) := do
  let files ← match config.effectiveArg "files" with
    | some (.sequence items) => .ok (items.filterMap readFile)
    | some _ => .error (.config "files must be a sequence of \x7burl, path\x7d objects")
    | none => .ok []
  if files = [] then .error (.config "Downloader plugin requires at least one file to download") else .ok files

/-- A number, and the default for all else. -/
def readArg (default : Nat) (config : PluginConfig) (key : String) : Nat :=
  ((config.effectiveArg key).bind Value.asU64).getD default

def init (config : PluginConfig) : Except Error DownloaderPlugin := do
  let files ← readFiles config
  return {
    files
    timeoutSecs := readArg 30 config "timeout_secs"
    concurrent := ((config.effectiveArg "concurrent").bind Value.asBool).getD false
    maxRetries := readArg 3 config "max_retries"
    retryDelaySecs := readArg 2 config "retry_delay_secs" }

end DownloaderPlugin

end Lazydns
