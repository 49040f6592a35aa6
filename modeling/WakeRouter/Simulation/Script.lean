import WakeRouter.Http.Wire.Request
import WakeRouter.Simulation.Basic

/-!
# Scripts of a simulation

A script is a list of steps.  A step that waits for something lets time pass; after every
step, all that can be done at that instant is done.
-/

namespace WakeRouter.Simulation

inductive Step
  | fleet (change : Fleet.Change)
  | remote (hostname : String)
  | call (call : DirectCall)
  | sleep (d : Duration)
  | cancel (task : String)
  | abort (task : String)
  | isFinished (task : String)
  | join (task : String)
  | spawn (task : String) (errand : Errand)
  | perform (errand : Errand)
  | touch (key : String)
  | markPaused (key : String)
  | idle (timeout : Duration)
  | handle (key : String)
  | state (key : String)
  | size
  | install (schedule : Schedule)
  | discard
  | startWatcher
  | stopWatcher
  | stopWatcherAndWait
  | isWatcherRunning
  | shutDown
  | abandonShutdown
  /-- A connection that sends these bytes, and the payload once it is a tunnel. -/
  | tunnel (bytes payload : Bytes) (session : Duration) (peer : Http.Peer)
  /-- A request that could not be made. -/
  | refuse (fault : Http.RequestFault)
deriving DecidableEq, Repr

/-- What a step finds out. -/
inductive Finding
  | nothing
  | spawned
  | flag (b : Bool)
  | size (n : Nat)
  | remote (status : RemoteStatus)
  | text (s : String)
  | keys (keys : List String)
  | schedule (schedule : Schedule)
  | stats (stats : TickStats)
  | answer (a : Answer)
  | direct (result : DirectResult)
  | response (r : Http.Response)
  | fault (fault : Http.RequestFault)
  | aborted
  /-- The work of the task broke down. -/
  | broken
deriving DecidableEq, Repr

namespace Place

/-- What has come of the work in that place, once it is over. -/
def finding? (router : Router) : Place → Option Finding
  | .caller c =>
    match (router.manager.callers.find? c).map Caller.phase with
    | some (.answered a) => some (.answer a)
    | some .left => some .aborted
    | _ => none
  | .tick t =>
    match router.upkeep.ticks[t]? with
    | some found =>
      match found.phase with
      | .done => some (.stats found.stats)
      | .broken => some .broken
      | .dropped => some .aborted
      | .scheduled | .pausing .. => none
    | none => none
  | .exchange x =>
    match router.exchanges[x]? with
    | some found =>
      match found.response? with
      | some r => some (.response r)
      | none => if found.isPending then none else some .aborted
    | none => none
  | .ask a =>
    match router.asks[a]? with
    | some found =>
      match found.response? with
      | some r => some (.response r)
      | none => if found.phase = .dropped then some .aborted else none
    | none => none

/-- The event that gives up the work in that place. -/
def giveUp : Place → Router.Event
  | .caller c => .upkeep (.manager (.leave c))
  | .tick t => .upkeep (.dropTick t)
  | .exchange x => .dropRequest x
  | .ask a => .dropAsk a

end Place

/-- The latest task of that name. -/
def task? (s : Simulation) (name : String) : Option (Nat × Task) := do
  let n ← s.names.lookup name
  let task ← s.tasks[n]?
  some (n, task)

def taskFinding? (s : Simulation) (task : Task) : Option Finding :=
  task.place?.bind fun place => place.finding? s.router

def findingAt (s : Simulation) (place : Place) : Finding :=
  (place.finding? s.router).getD .nothing

def awaitFinding (s : Simulation) (place : Place) : Simulation :=
  s.awaitPlace place fun router => (place.finding? router).isSome

/-- Whether there is what an errand is for. -/
def canBegin (s : Simulation) : Errand → Bool
  | .tick => s.router.upkeep.watcher?.isSome
  | _ => true

/-- Give a name to a task; the task that had it loses it. -/
def rename (names : List (String × Nat)) (name : String) (n : Nat) : List (String × Nat) :=
  (name, n) :: names.filter fun entry => entry.1 != name

def spawn (s : Simulation) (name : String) (errand : Errand) : Simulation :=
  let n := s.tasks.length
  let task : Task := ⟨errand, none⟩
  let cancellations :=
    if errand.isCancellable then rename s.cancellations name n else s.cancellations
  { s with
    tasks := s.tasks ++ [task]
    names := rename s.names name n
    cancellations := cancellations }.later (.start n)

/-- The caller of the cancellation of that name, as long as it waits. -/
def cancellable? (s : Simulation) (name : String) : Option CallerId := do
  let n ← s.cancellations.lookup name
  match (← s.tasks[n]?).place? with
  | some (.caller c) => if (s.manager.callers.find? c).any Caller.isPending then some c else none
  | _ => none

/-- Use the latest cancellation of that name: once, and for a caller that waits. -/
def cancel (s : Simulation) (name : String) : Bool × Simulation :=
  let others := s.cancellations.filter fun entry => entry.1 != name
  match s.cancellable? name with
  | none => (false, { s with cancellations := others })
  | some c => (true, { s with cancellations := others }.applyManager (.cancel c))

def abort (s : Simulation) (name : String) : Bool × Simulation :=
  match s.task? name with
  | none => (false, s)
  | some (_, task) =>
    match task.place? with
    | some place => (true, s.applyRouter place.giveUp)
    | none => (true, s)

def join (s : Simulation) (name : String) : Finding × Simulation :=
  match s.task? name with
  | none => (.nothing, s)
  | some (_, task) =>
    let s := s.await fun s => (s.taskFinding? task).isSome
    ((s.taskFinding? task).getD .nothing,
      { s with names := s.names.filter fun entry => entry.1 != name })

/-- The result of a direct call. -/
def callDirectly (s : Simulation) (call : DirectCall) : Finding × Simulation :=
  let (begins, fleet, delay) :=
    match call with
    | .describe _ => (true, s.fleet.beginDescribe, s.fleet.describeDelay)
    | .power call hostname =>
      let (begins, fleet) := s.fleet.beginCall call hostname
      (begins, fleet, s.fleet.delay call)
  let s := s.withFleet fleet
  if begins then
    let s := { s with direct? := some (call, none) }.inDue delay .call
    let s := s.await fun s => s.direct?.any fun entry => entry.2.isSome
    match s.direct? with
    | some (_, some result) => (.direct result, s)
    | _ => (.nothing, s)
  else (.broken, s)

def sleep (s : Simulation) (d : Duration) : Simulation :=
  if d.isZero then s
  else
    let target := s.due d
    (s.after d .alarm).await fun s => target ≤ s.now

/-- The answer that goes out over a connection, after the tunnel that it may open. -/
def tunnel (s : Simulation) (bytes payload : Bytes) (session : Duration) (client? : Option Net.Ip)
    (peer : Http.Peer) : Finding × Simulation :=
  match Http.Wire.readRequest bytes with
  | .error fault => (.response fault.response, s)
  | .ok arrived =>
    let upgradable := arrived.request.version = .v11
    let (s, place) := s.beginTask (.request arrived.request client? upgradable peer)
    let x := s.router.exchanges.length - 1
    let s := s.awaitFinding place
    let delivered := s.arrived.any fun entry => entry.1 == x
    match (s.router.exchanges[x]?).map Exchange.phase with
    | some (.tunnelling r) =>
      let s := (s.inDue session (.close x)).await fun s =>
        match (s.router.exchanges[x]?).map Exchange.phase with
        | some (.tunnelling _) => false
        | _ => true
      (.response { arrived.answer delivered r with body := .ofBytes payload }, s)
    | _ =>
      match s.findingAt place with
      | .response r => (.response (arrived.answer delivered r), s)
      | other => (other, s)

/-- The answer to a question that comes over a connection. -/
def question (s : Simulation) (bytes : Bytes) : Finding × Simulation :=
  match Http.Wire.readRequest bytes with
  | .error fault => (.response fault.response, s)
  | .ok arrived =>
    let (s, place) := s.beginTask (.ask arrived.request.method arrived.request.uri)
    let s := s.awaitFinding place
    match s.findingAt place with
    | .response r => (.response (arrived.answer false r), s)
    | other => (other, s)

def stopWatcherAndWait (s : Simulation) : Simulation :=
  let slot? := s.router.upkeep.watcher?.bind Watcher.slot?
  (s.applyUpkeep .stop).await fun s => slot?.all s.router.upkeep.isLoopOver

/-- A finding that needs a watcher. -/
def ofWatcher (s : Simulation) (f : Watcher → Finding × Simulation) : Finding × Simulation :=
  match s.router.upkeep.watcher? with
  | some w => f w
  | none => (.nothing, s)

def textFinding : Option String → Finding
  | some s => .text s
  | none => .nothing

/-- Do a step, up to what it waits for. -/
def run (s : Simulation) : Step → Finding × Simulation
  | .fleet change => (.nothing, s.apply (.fleet change))
  | .remote hostname =>
    match s.fleet.statusOf? hostname with
    | some status => (.remote status, s)
    | none => (.nothing, s)
  | .call call => s.callDirectly call
  | .sleep d => (.nothing, s.sleep d)
  | .cancel name =>
    let (done, s) := s.cancel name
    (.flag done, s)
  | .abort name =>
    let (done, s) := s.abort name
    (.flag done, s)
  | .isFinished name =>
    match s.task? name with
    | some (_, task) => (.flag (s.taskFinding? task).isSome, s)
    | none => (.nothing, s)
  | .join name => s.join name
  | .spawn name errand =>
    if s.canBegin errand then (.spawned, s.spawn name errand) else (.nothing, s)
  | .perform errand =>
    if s.canBegin errand then
      let (s, place) := s.beginTask errand
      let s := s.awaitFinding place
      (s.findingAt place, s)
    else (.nothing, s)
  | .touch key => (.nothing, s.applyManager (.touch key))
  | .markPaused key => (.nothing, s.applyManager (.markPaused key))
  | .idle timeout =>
    (.keys ((s.manager.idleKeys timeout).mergeSort fun a b => decide (a ≤ b)), s)
  | .handle key => (textFinding (s.manager.handle? key), s)
  | .state key => (textFinding ((s.manager.state? key).map Lifecycle.name), s)
  | .size => (.size s.manager.records.size, s)
  | .install schedule => (.schedule schedule, s.applyUpkeep (.install schedule))
  | .discard => (.flag s.router.upkeep.watcher?.isSome, s.applyUpkeep .discard)
  | .startWatcher => s.ofWatcher fun w =>
    (.flag !(s.router.upkeep.isRunning w), s.applyUpkeep .start)
  | .stopWatcher => s.ofWatcher fun w => (.flag w.slot?.isSome, s.applyUpkeep .stop)
  | .stopWatcherAndWait => (.nothing, s.stopWatcherAndWait)
  | .isWatcherRunning => s.ofWatcher fun w => (.flag (s.router.upkeep.isRunning w), s)
  | .shutDown =>
    if s.signaller then (.flag true, s.applyRouter .shutDown) else (.flag false, s)
  | .abandonShutdown => (.flag s.signaller, { s with signaller := false })
  | .tunnel bytes payload session peer => s.tunnel bytes payload session none peer
  | .refuse fault => (.fault fault, s)

/-- What can be seen after a step. -/
structure View where
  finding : Finding
  now : Instant
  describeCalls : Nat
  resumeCalls : Nat
  pauseCalls : Nat
  records : List Snapshot
  /-- The requests that reached a machine during the step. -/
  arrived : List Http.Received
deriving DecidableEq, Repr

def view (s : Simulation) (keys : List String) (finding : Finding) : View where
  finding := finding
  now := s.now
  describeCalls := s.fleet.describeCalls
  resumeCalls := s.fleet.resumeCalls
  pauseCalls := s.fleet.pauseCalls
  records := keys.filterMap s.manager.snapshot?
  arrived := s.arrived.map Prod.snd

/-- Do a step, and all that can be done at its end. -/
def step (keys : List String) (s : Simulation) (step : Step) : View × Simulation :=
  let (finding, s) := { s with arrived := [] }.run step
  let s := s.await fun _ => true
  (s.view keys finding, s)

/-- The views of all steps of a script. -/
def play (keys : List String) : Simulation → List Step → List View
  | _, [] => []
  | s, first :: rest =>
    let (view, s) := s.step keys first
    view :: play keys s rest

end WakeRouter.Simulation
