import WakeRouter.ControlPlane.Error
import WakeRouter.Vm.Node

/-!
# A control plane in memory

A fleet holds machines and changes their status when it is told to.  Calls are counted,
take as long as one likes, and fail or break down on demand.
-/

namespace WakeRouter

/-- A change that the control plane makes to one machine. -/
inductive PowerCall
  | resume
  | pause
deriving DecidableEq, Repr

namespace PowerCall

def word : PowerCall → String
  | .resume => "resume"
  | .pause => "pause"

/-- The status of a machine after the call. -/
def status : PowerCall → RemoteStatus
  | .resume => .running
  | .pause => .paused

end PowerCall

structure Fleet where
  nodes : List Node
  describeFails : Bool
  /-- The calls that fail, and for which machines. -/
  failing : List (PowerCall × String)
  /-- The calls that break down before they begin, once for each entry. -/
  breakdowns : List (PowerCall × String)
  describeDelay : Duration
  resumeDelay : Duration
  pauseDelay : Duration
  describeCalls : Nat
  resumeCalls : Nat
  pauseCalls : Nat
deriving DecidableEq, Repr

namespace Fleet

def ofNodes (nodes : List Node) : Fleet where
  nodes := nodes
  describeFails := false
  failing := []
  breakdowns := []
  describeDelay := .zero
  resumeDelay := .zero
  pauseDelay := .zero
  describeCalls := 0
  resumeCalls := 0
  pauseCalls := 0

def addNode (f : Fleet) (node : Node) : Fleet :=
  { f with nodes := f.nodes ++ [node] }

def setFailing (f : Fleet) (call : PowerCall) (hostname : String) (on : Bool) : Fleet :=
  let others := f.failing.filter (· != (call, hostname))
  { f with failing := if on then others ++ [(call, hostname)] else others }

/-- Let just the next calls of that kind for that machine break down. -/
def setBreakdowns (f : Fleet) (call : PowerCall) (hostname : String) (times : Nat) : Fleet :=
  let others := f.breakdowns.filter (· != (call, hostname))
  { f with breakdowns := others ++ List.replicate times (call, hostname) }

/-- What can be changed about a fleet from outside, without a call. -/
inductive Change
  | addNode (node : Node)
  | failDescribe (on : Bool)
  | fail (call : PowerCall) (hostname : String) (on : Bool)
  | delayDescribe (d : Duration)
  | delay (call : PowerCall) (d : Duration)
  | breakDown (call : PowerCall) (hostname : String) (times : Nat)
deriving DecidableEq, Repr

def delay (f : Fleet) : PowerCall → Duration
  | .resume => f.resumeDelay
  | .pause => f.pauseDelay

def setDelay (f : Fleet) (call : PowerCall) (d : Duration) : Fleet :=
  match call with
  | .resume => { f with resumeDelay := d }
  | .pause => { f with pauseDelay := d }

def change (f : Fleet) : Change → Fleet
  | .addNode node => f.addNode node
  | .failDescribe on => { f with describeFails := on }
  | .fail call hostname on => f.setFailing call hostname on
  | .delayDescribe d => { f with describeDelay := d }
  | .delay call d => f.setDelay call d
  | .breakDown call hostname times => f.setBreakdowns call hostname times

def statusOf? (f : Fleet) (hostname : String) : Option RemoteStatus :=
  (f.nodes.find? fun node => node.hostname == hostname).map Node.remoteStatus

/-! ## Calls

A call begins, which counts it, and takes effect when its delay is over. -/

def beginDescribe (f : Fleet) : Fleet :=
  { f with describeCalls := f.describeCalls + 1 }

def describe (f : Fleet) (key : String) : Except ControlError (List Node) :=
  if f.describeFails then .error (.remote "describe failed")
  else .ok (f.nodes.filter fun node => node.serves key)

/-- A call begins, unless it breaks down. -/
def beginCall (f : Fleet) (call : PowerCall) (hostname : String) : Bool × Fleet :=
  if f.breakdowns.contains (call, hostname) then
    (false, { f with breakdowns := f.breakdowns.erase (call, hostname) })
  else
    match call with
    | .resume => (true, { f with resumeCalls := f.resumeCalls + 1 })
    | .pause => (true, { f with pauseCalls := f.pauseCalls + 1 })

/-- Give the first machine of that name a status. -/
def setStatus (hostname : String) (status : RemoteStatus) : List Node → List Node
  | [] => []
  | node :: rest =>
    if node.hostname = hostname then { node with status := status.word } :: rest
    else node :: setStatus hostname status rest

def perform (f : Fleet) (call : PowerCall) (hostname : String) : Acknowledgement × Fleet :=
  if f.failing.contains (call, hostname) then
    (.failed (.remote s!"{call.word} {hostname} failed"), f)
  else if f.nodes.any fun node => node.hostname == hostname then
    (.done, { f with nodes := setStatus hostname call.status f.nodes })
  else (.failed (.status 404 s!"vm {hostname} not found"), f)

end Fleet

end WakeRouter
