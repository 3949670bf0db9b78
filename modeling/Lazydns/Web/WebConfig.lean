import Lazydns.Config.Listen

/-!
# The configuration of the web interface

What the validation reads, with the defaults, and the number of alerts that are kept, which it does not read.
-/

namespace Lazydns

structure MetricsConfig where
  windowSecs : Nat
  topN : Nat
  deriving DecidableEq, Repr

def MetricsConfig.default : MetricsConfig := ⟨300, 10⟩

def MetricsConfig.validate (config : MetricsConfig) : Except String Unit :=
  if config.windowSecs = 0 then .error "metrics.window_secs must be greater than 0"
  else if config.topN = 0 then .error "metrics.top_n must be greater than 0"
  else .ok ()

structure SseConfig where
  maxConnections : Nat
  keepaliveSecs : Nat
  deriving DecidableEq, Repr

def SseConfig.default : SseConfig := ⟨100, 30⟩

def SseConfig.validate (config : SseConfig) : Except String Unit :=
  if config.maxConnections = 0 then .error "sse.max_connections must be greater than 0"
  else if config.keepaliveSecs = 0 then .error "sse.keepalive_secs must be greater than 0"
  else .ok ()

structure WebSocketConfig where
  maxConnections : Nat
  heartbeatSecs : Nat
  timeoutSecs : Nat
  deriving DecidableEq, Repr

def WebSocketConfig.default : WebSocketConfig := ⟨50, 30, 60⟩

def WebSocketConfig.validate (config : WebSocketConfig) : Except String Unit :=
  if config.maxConnections = 0 then .error "websocket.max_connections must be greater than 0"
  else if config.heartbeatSecs = 0 then .error "websocket.heartbeat_secs must be greater than 0"
  else if config.timeoutSecs ≤ config.heartbeatSecs then
    .error "websocket.timeout_secs must be greater than heartbeat_secs"
  else .ok ()

structure AlertConfig where
  maxAlerts : Nat
  deriving DecidableEq, Repr

def AlertConfig.default : AlertConfig := ⟨1000⟩

structure WebConfig where
  listen : String
  eventBusCapacity : Nat
  metrics : MetricsConfig
  sse : SseConfig
  websocket : WebSocketConfig
  alerts : AlertConfig
  deriving DecidableEq, Repr

namespace WebConfig

def default : WebConfig := ⟨"127.0.0.1:8080", 1024, .default, .default, .default, .default⟩

def validate (config : WebConfig) : Except String Unit :=
  match IpText.parseSocketAddr config.listen with
  | none => .error ("Invalid listen address '" ++ config.listen ++ "': invalid socket address syntax")
  | some _ =>
    if config.eventBusCapacity = 0 then .error "event_bus_capacity must be greater than 0"
    else
      match config.metrics.validate with
      | .error message => .error message
      | .ok () =>
        match config.sse.validate with
        | .error message => .error message
        | .ok () => config.websocket.validate

theorem validate_default : default.validate = .ok () := by
  decide +kernel

end WebConfig

end Lazydns
