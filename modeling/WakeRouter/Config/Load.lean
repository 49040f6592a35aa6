import WakeRouter.Config.Document
import WakeRouter.Text.Utf8

/-!
# The configuration that the router starts with

Four layers decide what the router runs with: the file, the environment, the command
line and the defaults.  `Config.load` puts the first three together and checks the
result; `Config.effective` shows it with the defaults filled in.
-/

namespace WakeRouter

/-- What the process environment tells. -/
structure Environment where
  home? : Option String
  token? : Option String

/-- A chain of messages, from the whole to its cause. -/
structure Report where
  top : String
  cause? : Option String
deriving DecidableEq, Repr

namespace Report

def messages (r : Report) : List String :=
  r.top :: r.cause?.toList

def text (r : Report) : String :=
  match r.cause? with
  | some cause => s!"Error: {r.top}\n\nCaused by:\n    {cause}\n"
  | none => s!"Error: {r.top}\n"

end Report

inductive LoadError
  /-- The file could not be read or does not parse. -/
  | source (error : ConfigError)
  /-- The file parses, but the router cannot work with it. -/
  | invalid (path : String) (error : ConfigError)
deriving DecidableEq, Repr

namespace LoadError

def error : LoadError → ConfigError
  | .source e => e
  | .invalid _ e => e

def report : LoadError → Report
  | .source (.unreadable path cause) => ⟨(ConfigError.unreadable path cause).message, some cause⟩
  | .source e => ⟨e.message, none⟩
  | .invalid path e => ⟨s!"invalid config {path}", some e.message⟩

end LoadError

namespace Config

/-- The configuration in a file; `content` is what reading the file gave. -/
def ofFile (path : String) (content : Except String Bytes) : Except ConfigError Config :=
  match content with
  | .error cause => .error (.unreadable path cause)
  | .ok bytes =>
    match Text.ofUtf8? bytes with
    | none => .error (.unreadable path "stream did not contain valid UTF-8")
    | some text => (Config.read (String.ofList text)).mapError .unparsable

def load (env : Environment) (path : String) (content : Except String Bytes)
    (listen? askListen? : Option Net.SocketAddress) : Except LoadError Config := do
  let file ← (ofFile path content).mapError .source
  let config := (file.withToken env.token?).withListeners listen? askListen?
  (config.check env.home?).mapError (.invalid path)
  .ok config

/-- The settings as they will be used, with the token hidden. -/
def effective (c : Config) : Config where
  controlPlane :=
    if c.controlPlane.token.isEmpty then c.controlPlane
    else { c.controlPlane with token := "<redacted>" }
  routing :=
    { idleTimeout? := some c.routing.idleTimeout
      wakeTimeout? := some c.routing.wakeTimeout
      watchInterval? := some c.routing.watchInterval
      appPort? := some c.routing.appPort.toUInt32 }
  server := { c.server with listen? := some c.server.listen }

end Config

end WakeRouter
