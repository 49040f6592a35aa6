import WakeRouter.ControlPlane.Error
import WakeRouter.Table
import WakeRouter.Vm.Lifecycle

/-!
# What is known about a key

A record says which machine serves a key, in which state the machine is, and when it was
last used.
-/

namespace WakeRouter

/-- The name of a caller. -/
abbrev CallerId := Nat

/-- A wake goes by the name of the caller that began it. -/
abbrev Episode := CallerId

structure Record where
  /-- The name of the machine in calls to the control plane; empty when there is none. -/
  handle : String
  address : String
  state : Lifecycle
  lastActivity : Instant
  /-- The wake that is under way. -/
  wake? : Option Episode
  /-- Why the last wake failed, until the next one begins. -/
  wakeError? : Option ControlError
deriving DecidableEq, Repr

/-- A record as a caller saw it. -/
structure Snapshot where
  taken : Instant
  key : String
  handle : String
  address : String
  state : Lifecycle
  lastActivity : Instant
  wakeError? : Option ControlError
deriving DecidableEq, Repr

/-- The time since the last activity. -/
def Snapshot.age (s : Snapshot) : Duration :=
  ⟨s.taken - s.lastActivity⟩

namespace Record

def notFound (now : Instant) : Record where
  handle := ""
  address := ""
  state := .notFound
  lastActivity := now
  wake? := none
  wakeError? := none

def ofNode (node : Node) (now : Instant) : Record where
  handle := node.hostname
  address := node.address
  state := .ofStatus node.remoteStatus
  lastActivity := now
  wake? := none
  wakeError? := none

/-- Of several machines that serve a key, the first counts. -/
def ofNodes (nodes : List Node) (now : Instant) : Record :=
  match nodes with
  | [] => notFound now
  | node :: _ => ofNode node now

def snapshot (now : Instant) (key : String) (r : Record) : Snapshot :=
  ⟨now, key, r.handle, r.address, r.state, r.lastActivity, r.wakeError?⟩

def beginWake (episode : Episode) (r : Record) : Record :=
  { r with state := .waking, wake? := some episode, wakeError? := none }

def endWake (result : Acknowledgement) (r : Record) : Record :=
  match result with
  | .done => { r with state := .running, wake? := none, wakeError? := none }
  | .failed cause => { r with state := .paused, wake? := none, wakeError? := some cause }

def touch (now : Instant) (r : Record) : Record :=
  { r with lastActivity := now }

/-- A record without a machine stays so, and a wake that is under way goes on. -/
def markPaused (r : Record) : Record :=
  match r.state with
  | .notFound | .waking => r
  | _ => { r with state := .paused }

/-- Running, and without activity for longer than the timeout. -/
def isIdle (now : Instant) (timeout : Duration) (r : Record) : Bool :=
  r.state = .running && timeout.nanos < now - r.lastActivity

end Record

/-- Records by routing key. -/
abbrev Records := Table String Record

end WakeRouter
