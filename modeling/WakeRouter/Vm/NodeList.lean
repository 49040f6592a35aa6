import WakeRouter.Json.Reader
import WakeRouter.Json.Writer
import WakeRouter.Vm.Node

/-!
# Node lists as JSON

The control plane reports its machines as an array of objects.  Fields may come in any
order and fields of other names do not count, but a name of a field that does count must
not come twice.  A machine may also be an array of its fields.
-/

namespace WakeRouter

namespace Node

/-- The fields met so far. -/
structure Draft where
  hostname? : Option String
  address? : Option String
  status? : Option String
  tags? : Option (List String)

namespace Draft

def empty : Draft := ⟨none, none, none, none⟩

def text? : Json.Value → Option String
  | .string text? => text?
  | _ => none

def texts? : Json.Value → Option (List String)
  | .array items => items.mapM text?
  | _ => none

/-- Set a field that has no value yet. -/
def fresh {α : Type} (old : Option α) (new : Option α) : Option (Option α) :=
  match old with
  | some _ => none
  | none => new.map some

def set (d : Draft) (field : Option String × Json.Value) : Option Draft := do
  match ← field.1 with
  | "hostname" => some { d with hostname? := ← fresh d.hostname? (text? field.2) }
  | "ip" => some { d with address? := ← fresh d.address? (text? field.2) }
  | "status" => some { d with status? := ← fresh d.status? (text? field.2) }
  | "tags" => some { d with tags? := ← fresh d.tags? (texts? field.2) }
  | _ => some d

/-- Only the tags may be left out. -/
def finish? (d : Draft) : Option Node := do
  some ⟨← d.hostname?, ← d.address?, ← d.status?, d.tags?.getD []⟩

end Draft

def fieldNames : List String := ["hostname", "ip", "status", "tags"]

def ofJson? : Json.Value → Option Node
  | .object fields => do (← fields.foldlM Draft.set .empty).finish?
  | .array items =>
    if items.length > fieldNames.length then none
    else do
      let named := (fieldNames.map some).zip items
      (← named.foldlM Draft.set .empty).finish?
  | _ => none

def toJson (node : Node) : List Char :=
  Json.Writer.object [("hostname", Json.Writer.string node.hostname),
    ("ip", Json.Writer.string node.address), ("status", Json.Writer.string node.status),
    ("tags", Json.Writer.array (node.tags.map Json.Writer.string))]

end Node

namespace NodeList

def decode? (bytes : Bytes) : Option (List Node) :=
  match Json.read? bytes with
  | some (.array items) => items.mapM Node.ofJson?
  | _ => none

def encode (nodes : List Node) : Bytes :=
  Text.toUtf8 (Json.Writer.array (nodes.map Node.toJson))

end NodeList

end WakeRouter
