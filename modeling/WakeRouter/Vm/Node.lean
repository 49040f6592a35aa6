/-!
# Virtual machines as the control plane reports them

A node is one machine: the name that the control plane calls it by, its network
address, a status word and the tags under which it can be reached.
-/

namespace WakeRouter

structure Node where
  hostname : String
  address : String
  status : String
  tags : List String
deriving DecidableEq, Repr

/-- What the router makes of a status word. -/
inductive RemoteStatus
  | running
  | paused
  | other
deriving DecidableEq, Repr

namespace RemoteStatus

/-- Words are compared without regard to the case of ASCII letters. -/
def ofWord (word : String) : RemoteStatus :=
  let folded := word.toList.map Char.toLower
  if folded = "running".toList then .running
  else if folded = "paused".toList then .paused
  else .other

def word : RemoteStatus → String
  | .running => "Running"
  | .paused => "Paused"
  | .other => "Unknown"

end RemoteStatus

namespace Node

def remoteStatus (node : Node) : RemoteStatus :=
  .ofWord node.status

/-- Whether the machine serves the key: by its name or by one of its tags. -/
def serves (node : Node) (key : String) : Bool :=
  node.hostname == key || node.tags.contains key

end Node

end WakeRouter
