import WakeRouter.Vm.Node

/-!
# States of a machine behind a key
-/

namespace WakeRouter

inductive Lifecycle
  | unknown
  | running
  | paused
  /-- A resume is under way. -/
  | waking
  /-- No machine serves the key. -/
  | notFound
deriving DecidableEq, Repr

namespace Lifecycle

def name : Lifecycle → String
  | .unknown => "unknown"
  | .running => "running"
  | .paused => "paused"
  | .waking => "waking"
  | .notFound => "not_found"

def ofStatus : RemoteStatus → Lifecycle
  | .running => .running
  | .paused => .paused
  | .other => .unknown

end Lifecycle

end WakeRouter
