import WakeRouter.Config.Basic
import WakeRouter.Toml.Reader
import WakeRouter.Toml.Writer

/-!
# Configurations as documents

`Config.read` takes a configuration from the text of a document and `Config.write`
writes one.  Faults are found in document order; that a field is missing shows only
after all of the fields that its table has.
-/

namespace WakeRouter

open Toml (Value)

namespace ConfigField

def text : Value → Except ConfigFault String
  | .string s => .ok s
  | _ => .error .malformed

def duration (v : Value) : Except ConfigFault Duration := do
  let s ← text v
  match Duration.read? s.toList with
  | some d => .ok d
  | none => .error (.invalidDuration s)

def address (v : Value) : Except ConfigFault Net.SocketAddress := do
  match Net.SocketAddress.read? (← text v).toList with
  | some a => .ok a
  | none => .error .malformed

def word32 : Value → Except ConfigFault UInt32
  | .integer n => if 0 ≤ n ∧ n < Int.pow 2 32 then .ok (UInt32.ofNat n.toNat) else .error .malformed
  | _ => .error .malformed

def required {α : Type} (name : String) : Option α → Except ConfigFault α
  | some a => .ok a
  | none => .error (.missingField name)

/-- Take up the fields of a value one by one.  A table names its fields; an array gives
all of them in the order of `names`; a date or time counts as a table without a field
that is known. -/
def takeUp {δ : Type} (names : List String)
    (set : δ → String × Value → Except ConfigFault δ) (start : δ) :
    Value → Except ConfigFault δ
  | .table _ entries => entries.foldlM set start
  | .array items => inOrder items
  | .tables items => inOrder (items.map (.table .header))
  | .dateTime _ => .ok start
  | _ => .error .malformed
where
  inOrder (items : List Value) : Except ConfigFault δ := do
    let d ← (names.zip items).foldlM set start
    if items.length < names.length then .error .malformed else .ok d

end ConfigField

namespace ControlPlaneConfig

def fieldNames : List String := ["url", "token", "host_group"]

/-- The fields met so far. -/
structure Draft where
  url? : Option String
  token? : Option String
  hostGroup? : Option String

def Draft.set (d : Draft) : String × Value → Except ConfigFault Draft
  | ("url", v) => do .ok { d with url? := some (← ConfigField.text v) }
  | ("token", v) => do .ok { d with token? := some (← ConfigField.text v) }
  | ("host_group", v) => do .ok { d with hostGroup? := some (← ConfigField.text v) }
  | _ => .ok d

def ofValue (v : Value) : Except ConfigFault ControlPlaneConfig := do
  let d ← ConfigField.takeUp fieldNames Draft.set ⟨none, none, none⟩ v
  let url ← ConfigField.required "url" d.url?
  let hostGroup ← ConfigField.required "host_group" d.hostGroup?
  .ok ⟨url, d.token?.getD "", hostGroup⟩

def toText (c : ControlPlaneConfig) : List Char :=
  Toml.Writer.table "control_plane"
    [Toml.Writer.pair "url" (Toml.Writer.string c.url.toList),
      Toml.Writer.pair "token" (Toml.Writer.string c.token.toList),
      Toml.Writer.pair "host_group" (Toml.Writer.string c.hostGroup.toList)]

end ControlPlaneConfig

namespace RoutingConfig

def fieldNames : List String := ["idle_timeout", "wake_timeout", "watch_interval", "app_port"]

def set (c : RoutingConfig) : String × Value → Except ConfigFault RoutingConfig
  | ("idle_timeout", v) => do .ok { c with idleTimeout? := some (← ConfigField.duration v) }
  | ("wake_timeout", v) => do .ok { c with wakeTimeout? := some (← ConfigField.duration v) }
  | ("watch_interval", v) => do .ok { c with watchInterval? := some (← ConfigField.duration v) }
  | ("app_port", v) => do .ok { c with appPort? := some (← ConfigField.word32 v) }
  | _ => .ok c

def ofValue (v : Value) : Except ConfigFault RoutingConfig :=
  ConfigField.takeUp fieldNames set empty v

/-- The line of a duration that is set. -/
def durationLine (key : String) (d? : Option Duration) : List (List Char) :=
  (d?.map fun d => Toml.Writer.pair key (Toml.Writer.string d.write)).toList

def toText (c : RoutingConfig) : List Char :=
  Toml.Writer.table "routing" <|
    durationLine "idle_timeout" c.idleTimeout? ++
    durationLine "wake_timeout" c.wakeTimeout? ++
    durationLine "watch_interval" c.watchInterval? ++
    (c.appPort?.map fun n => Toml.Writer.pair "app_port" (Text.writeNumber n.toNat)).toList

end RoutingConfig

namespace ServerConfig

def fieldNames : List String := ["listen", "ask_listen"]

def set (c : ServerConfig) : String × Value → Except ConfigFault ServerConfig
  | ("listen", v) => do .ok { c with listen? := some (← ConfigField.address v) }
  | ("ask_listen", v) => do .ok { c with askListen? := some (← ConfigField.address v) }
  | _ => .ok c

def ofValue (v : Value) : Except ConfigFault ServerConfig :=
  ConfigField.takeUp fieldNames set empty v

/-- The line of an address that is set. -/
def addressLine (key : String) (a? : Option Net.SocketAddress) : List (List Char) :=
  (a?.map fun a => Toml.Writer.pair key (Toml.Writer.string a.text)).toList

def toText (c : ServerConfig) : List Char :=
  Toml.Writer.table "server" <|
    addressLine "listen" c.listen? ++ addressLine "ask_listen" c.askListen?

end ServerConfig

namespace Config

/-- The tables met so far. -/
structure Draft where
  controlPlane? : Option ControlPlaneConfig
  routing : RoutingConfig
  server : ServerConfig

def Draft.set (d : Draft) : String × Value → Except ConfigFault Draft
  | ("control_plane", v) => do
    .ok { d with controlPlane? := some (← ControlPlaneConfig.ofValue v) }
  | ("routing", v) => do .ok { d with routing := ← RoutingConfig.ofValue v }
  | ("server", v) => do .ok { d with server := ← ServerConfig.ofValue v }
  | _ => .ok d

def ofEntries (entries : Toml.Entries) : Except ConfigFault Config := do
  let d ← entries.foldlM Draft.set ⟨none, .empty, .empty⟩
  let controlPlane ← ConfigField.required "control_plane" d.controlPlane?
  .ok ⟨controlPlane, d.routing, d.server⟩

def read (text : String) : Except ConfigFault Config :=
  match Toml.read? text with
  | some entries => ofEntries entries
  | none => .error .malformed

def write (c : Config) : String :=
  String.ofList <|
    c.controlPlane.toText ++ '\n' :: c.routing.toText ++ '\n' :: c.server.toText

end Config

end WakeRouter
