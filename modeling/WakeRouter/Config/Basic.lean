import WakeRouter.Duration
import WakeRouter.Endpoint
import WakeRouter.Net.Socket

/-!
# The configuration

What an operator can set: how to reach the control plane, how requests are routed and
where to listen.  Settings that are left out, and durations and ports that are zero,
take their defaults from the getters here.  `Config.check` tells whether the router can
work with the settings.
-/

namespace WakeRouter

/-- How to reach the control plane. -/
structure ControlPlaneConfig where
  url : String
  token : String
  hostGroup : String
deriving DecidableEq, Repr

structure RoutingConfig where
  idleTimeout? : Option Duration
  wakeTimeout? : Option Duration
  watchInterval? : Option Duration
  appPort? : Option UInt32
deriving DecidableEq, Repr

structure ServerConfig where
  listen? : Option Net.SocketAddress
  /-- Where certificate questions are answered; nowhere unless set. -/
  askListen? : Option Net.SocketAddress
deriving DecidableEq, Repr

structure Config where
  controlPlane : ControlPlaneConfig
  routing : RoutingConfig
  server : ServerConfig
deriving DecidableEq, Repr

/-- Zero counts as unset. -/
def Duration.orDefault (d? : Option Duration) (default : Duration) : Duration :=
  match d? with
  | some d => if d.isZero then default else d
  | none => default

namespace RoutingConfig

def empty : RoutingConfig := ⟨none, none, none, none⟩

def defaultIdleTimeout : Duration := .ofSeconds 300

def minIdleTimeout : Duration := .ofSeconds 30

def defaultWakeTimeout : Duration := .ofSeconds 30

def defaultWatchInterval : Duration := .ofSeconds 30

def defaultAppPort : UInt16 := 8080

def idleTimeout (c : RoutingConfig) : Duration :=
  .orDefault c.idleTimeout? defaultIdleTimeout

def wakeTimeout (c : RoutingConfig) : Duration :=
  .orDefault c.wakeTimeout? defaultWakeTimeout

def watchInterval (c : RoutingConfig) : Duration :=
  .orDefault c.watchInterval? defaultWatchInterval

/-- A number that is no port counts as unset. -/
def appPort (c : RoutingConfig) : UInt16 :=
  match c.appPort? with
  | some n => if n = 0 ∨ n.toNat ≥ Nat.pow 2 16 then defaultAppPort else n.toUInt16
  | none => defaultAppPort

end RoutingConfig

namespace ServerConfig

def empty : ServerConfig := ⟨none, none⟩

def defaultListen : Net.SocketAddress := .v4 ⟨0, 0, 0, 0⟩ 8081

def listen (c : ServerConfig) : Net.SocketAddress :=
  c.listen?.getD defaultListen

end ServerConfig

namespace Config

/-- A token from the environment goes before the one in the file, unless it is empty. -/
def withToken (c : Config) (token? : Option String) : Config :=
  match token? with
  | some token =>
    if token.isEmpty then c
    else { c with controlPlane := { c.controlPlane with token := token } }
  | none => c

/-- Addresses from the command line go before those in the file. -/
def withListeners (c : Config) (listen? askListen? : Option Net.SocketAddress) : Config :=
  { c with
    server := ⟨listen?.or c.server.listen?, askListen?.or c.server.askListen?⟩ }

def endpoint (home : Option String) (c : Config) : Except ConfigError Endpoint :=
  Endpoint.read home c.controlPlane.url

/-- The first thing, in this order, that keeps the router from working. -/
def check (home : Option String) (c : Config) : Except ConfigError Unit := do
  if (Text.trim c.controlPlane.url.toList).isEmpty then .error (.missing "control_plane.url")
  if c.controlPlane.token.isEmpty then .error (.missing "control_plane.token")
  if c.controlPlane.hostGroup.isEmpty then .error (.missing "control_plane.host_group")
  if c.routing.idleTimeout < RoutingConfig.minIdleTimeout then .error .idleTimeoutTooShort
  if let some port := c.routing.appPort? then
    if port.toNat ≥ Nat.pow 2 16 then .error (.invalidPort port.toNat)
  let _ ← c.endpoint home
  .ok ()

end Config

end WakeRouter
