import WakeRouter.Deployment

/-!
# A deployment in virtual time

A simulation runs a router over a fleet.  Time stands still as long as there is work, and
then goes on to the next timer.  Work is done in the order in which it came up, and timers
of one instant fire in the order in which they were set; their resolution is a
millisecond.  Only what the simulation itself waits for goes before all else that the
timers of that instant wake up.

Each job leads to at most one event of the deployment.  `react` looks at what an event has
changed, and starts the calls, timers and jobs that follow from it.
-/

namespace WakeRouter

namespace Simulation

inductive Job
  /-- The control plane answers a caller that asked for a description. -/
  | describe (c : CallerId)
  | engage (c : CallerId)
  | poll (c : CallerId)
  /-- A resume call begins. -/
  | resume (e : Episode)
  /-- A resume call has taken its time. -/
  | resumed (e : Episode)
  | overrun (e : Episode)
  | deliver (e : Episode)
  | enter (l : LoopId)
  /-- A loop sees whether it has something to do. -/
  | watch (l : LoopId)
  | begin (t : TickId)
  | pause (t : TickId)
  | breakDown (t : TickId)
  /-- The machine behind a request answers. -/
  | reply (x : ExchangeId)
  | close (x : ExchangeId)
  | expire (a : AskId)
  /-- A task starts, by its place among the tasks. -/
  | start (n : Nat)
  /-- A direct call of the control plane has taken its time. -/
  | call
  /-- Nothing but the passing of time. -/
  | alarm
deriving DecidableEq, Repr

structure Timer where
  due : Instant
  job : Job
deriving DecidableEq, Repr

/-- What a task does. -/
inductive Errand
  | lookup (key : String)
  | ensure (key : String) (timeout : Duration)
  | tick
  | request (r : Http.Request) (client? : Option Net.Ip) (upgradable : Bool) (peer : Http.Peer)
  | ask (method : String) (uri : Http.Uri)
deriving DecidableEq, Repr

/-- Whether a task that runs the errand comes with a cancellation. -/
def Errand.isCancellable : Errand → Bool
  | .ensure .. => true
  | _ => false

/-- Where the work of a task is to be found in the router. -/
inductive Place
  | caller (c : CallerId)
  | tick (t : TickId)
  | exchange (x : ExchangeId)
  | ask (a : AskId)
deriving DecidableEq, Repr

structure Task where
  errand : Errand
  /-- There is none before the task starts. -/
  place? : Option Place
deriving DecidableEq, Repr

/-- A call of the control plane that does not come from the router. -/
inductive DirectCall
  | describe (key : String)
  | power (call : PowerCall) (hostname : String)
deriving DecidableEq, Repr

inductive DirectResult
  | nodes (nodes : List Node)
  | done
  | failed (e : ControlError)
deriving DecidableEq, Repr

/-- The elements of a list that were not there before in their places, with what was. -/
def changes {α : Type} [DecidableEq α] (place : Nat) : List α → List α → List (Nat × Option α × α)
  | _, [] => []
  | [], new :: after => (place, none, new) :: changes (place + 1) [] after
  | old :: before, new :: after =>
    if old = new then changes (place + 1) before after
    else (place, some old, new) :: changes (place + 1) before after

end Simulation

structure Simulation where
  deployment : Deployment
  /-- What listens on the port of the machines, for each request. -/
  peers : List Http.Peer
  queue : List Simulation.Job
  timers : List Simulation.Timer
  tasks : List Simulation.Task
  /-- The tasks that still have a name, the latest first. -/
  names : List (String × Nat)
  /-- The tasks with a cancellation that has not been used, by the names they were given;
  such a task may no longer have its name. -/
  cancellations : List (String × Nat)
  direct? : Option (Simulation.DirectCall × Option Simulation.DirectResult)
  /-- The work that the simulation waits for. -/
  awaited? : Option Simulation.Place
  /-- Requests that have reached a machine, the oldest first, with their exchanges. -/
  arrived : List (ExchangeId × Http.Received)
  /-- Somebody is there who can signal the shutdown. -/
  signaller : Bool

namespace Simulation

def start (nodes : List Node) (resumeDeadline : Duration) (port : UInt16)
    (wakeTimeout : Duration) : Simulation where
  deployment := ⟨.start resumeDeadline port wakeTimeout, .ofNodes nodes⟩
  peers := []
  queue := []
  timers := []
  tasks := []
  names := []
  cancellations := []
  direct? := none
  awaited? := none
  arrived := []
  signaller := true

def router (s : Simulation) : Router :=
  s.deployment.router

def fleet (s : Simulation) : Fleet :=
  s.deployment.fleet

def withFleet (s : Simulation) (fleet : Fleet) : Simulation :=
  { s with deployment := { s.deployment with fleet := fleet } }

def now (s : Simulation) : Instant :=
  s.router.now

def manager (s : Simulation) : Manager :=
  s.router.manager

/-- A name for the next caller; callers are numbered as they come. -/
def nextCaller (s : Simulation) : CallerId :=
  s.manager.callers.size

/-- Put jobs before all others: they go on with what is being done. -/
def first (s : Simulation) (job : Job) : Simulation :=
  { s with queue := job :: s.queue }

def later (s : Simulation) (job : Job) : Simulation :=
  { s with queue := s.queue ++ [job] }

/-- The resolution of timers. -/
def resolution : Nat := 1000000

/-- The first point of the timers' grid that is not before the instant. -/
def onGrid (i : Instant) : Instant :=
  (i + (resolution - 1)) / resolution * resolution

/-- Thirty years: no timer waits longer. -/
def longestWait : Duration := .ofSeconds (30 * 365 * 24 * 60 * 60)

/-- When a timer fires that is set now. -/
def due (s : Simulation) (d : Duration) : Instant :=
  onGrid (s.now + min d.nanos longestWait.nanos)

/-- Have a job done after a while. -/
def after (s : Simulation) (d : Duration) (job : Job) : Simulation :=
  { s with timers := s.timers ++ [⟨s.due d, job⟩] }

/-- Have a job done after a while; an empty one goes on at once. -/
def inDue (s : Simulation) (d : Duration) (job : Job) : Simulation :=
  if d.isZero then s.first job else s.after d job

/-! ## What follows from an event -/

def isAtRecord (caller : Caller) : Bool :=
  caller.phase == .found

def isWaiting (caller : Caller) : Bool :=
  match caller.phase with
  | .waiting _ => true
  | _ => false

def reactToCaller (s : Simulation) (c : CallerId) (old? : Option Caller) (new : Caller) :
    Simulation :=
  match new.phase with
  | .describing =>
    if old?.isNone then
      (s.withFleet s.fleet.beginDescribe).inDue s.fleet.describeDelay (.describe c)
    else s
  | .found => if old?.any isAtRecord then s else s.first (.engage c)
  | .waiting w =>
    if old?.any isWaiting then if new.cancelled then s.later (.poll c) else s
    else (s.after w.timeout (.poll c)).first (.poll c)
  | .answered _ | .left => s

def reactToWake (s : Simulation) (e : Episode) (old? : Option Wake) (new : Wake) : Simulation :=
  match old? with
  | none => (s.later (.resume e)).later (.deliver e)
  | some old =>
    let s :=
      match old.stage, new.stage with
      | .resuming _, .resumed _ => s.later (.deliver e)
      | _, _ => s
    if old.outcome?.isNone && new.outcome?.isSome then
      (s.manager.callers.entries.filter fun (_, caller) =>
        match caller.phase with
        | .waiting w => w.episode == e
        | _ => false).foldl (fun s (c, _) => s.later (.poll c)) s
    else s

def reactToLoop (s : Simulation) (l : LoopId) (old? : Option Loop) (new : Loop) : Simulation :=
  match old? with
  | none => s.later (.enter l)
  | some old =>
    match new.phase with
    | .waiting due =>
      if new.stopping && !old.stopping then s.later (.watch l)
      else if new.stopping || due ≤ s.now then s.first (.watch l)
      else { s with timers := s.timers ++ [⟨onGrid due, .watch l⟩] }
    | _ => s

def reactToTick (s : Simulation) (t : TickId) (old? : Option Tick) (new : Tick) : Simulation :=
  match old?, new.phase with
  | none, _ => s.later (.begin t)
  | some _, .pausing _ handle _ =>
    let (begins, fleet) := s.fleet.beginCall .pause handle
    let s := s.withFleet fleet
    if begins then s.inDue fleet.pauseDelay (.pause t) else s.first (.breakDown t)
  | some _, _ =>
    match new.loop? with
    | some l => if new.isOver then s.later (.watch l) else s
    | none => s

def reactToExchange (s : Simulation) (x : ExchangeId) (new : Exchange) : Simulation :=
  match new.phase with
  | .forwarded _ => s.first (.reply x)
  | _ => s

def reactToAsk (s : Simulation) (a : AskId) (new : Ask) : Simulation :=
  match new.phase with
  | .looking .. => s.after Ask.limit (.expire a)
  | _ => s

/-- Start what follows from the changes since `before`. -/
def react (s : Simulation) (before : Router) : Simulation :=
  let old := before.upkeep
  let new := s.router.upkeep
  let s := (changes 0 old.manager.callers.entries new.manager.callers.entries).foldl
    (fun s (_, old?, new) => s.reactToCaller new.1 (old?.map Prod.snd) new.2) s
  let s := (changes 0 old.manager.wakes.entries new.manager.wakes.entries).foldl
    (fun s (_, old?, new) => s.reactToWake new.1 (old?.map Prod.snd) new.2) s
  let s := (changes 0 old.loops new.loops).foldl
    (fun s (l, old?, new) => s.reactToLoop l old? new) s
  let s := (changes 0 old.ticks new.ticks).foldl
    (fun s (t, old?, new) => s.reactToTick t old? new) s
  let s := (changes 0 before.exchanges s.router.exchanges).foldl
    (fun s (x, _, new) => s.reactToExchange x new) s
  (changes 0 before.asks s.router.asks).foldl (fun s (a, _, new) => s.reactToAsk a new) s

/-- Have the first of the events happen that can happen. -/
def applyFirst (s : Simulation) : List Deployment.Event → Simulation
  | [] => s
  | e :: rest =>
    match s.deployment.step e with
    | some deployment => { s with deployment := deployment }.react s.router
    | none => s.applyFirst rest

/-- Have an event happen, if it can. -/
def apply (s : Simulation) (e : Deployment.Event) : Simulation :=
  s.applyFirst [e]

def applyRouter (s : Simulation) (e : Router.Event) : Simulation :=
  s.apply (.router e)

def applyUpkeep (s : Simulation) (e : Upkeep.Event) : Simulation :=
  s.applyRouter (.upkeep e)

def applyManager (s : Simulation) (e : Manager.Event) : Simulation :=
  s.applyUpkeep (.manager e)

/-! ## Jobs -/

/-- What is reported of a resume call that breaks down. -/
def breakdown : String :=
  "task N panicked with message \"resume exploded\""

def beginResume (s : Simulation) (e : Episode) (wake : Wake) : Simulation :=
  let s := s.applyManager (.resume e)
  let (begins, fleet) := s.fleet.beginCall .resume wake.handle
  let s := s.withFleet fleet
  if !begins then s.applyManager (.brokeDown e breakdown)
  else if fleet.resumeDelay.isZero then s.first (.resumed e)
  else if s.manager.resumeDeadline.isZero then s.applyManager (.overrun e)
  else (s.after fleet.resumeDelay (.resumed e)).after s.manager.resumeDeadline (.overrun e)

/-- Whether a host stands for the address that the peers listen on, 127.0.0.1.  Brackets
around it do not matter. -/
def isHere (host : List Char) : Bool :=
  let opened := host.dropWhile (· == '[')
  let bare := (opened.reverse.dropWhile (· == ']')).reverse
  match Net.Ip.read? bare with
  | some ip => ["127.0.0.1", "0.0.0.0", "::ffff:127.0.0.1"].contains (String.ofList ip.text)
  | none => bare.map Char.toLower == "localhost".toList

/-- Whether a request for that authority reaches the peers. -/
def reaches (authority : String) : Bool :=
  isHere (Http.Uri.hostOf authority.toList)

/-- Send a request to its machine, and have the machine's answer. -/
def exchange (s : Simulation) (x : ExchangeId) (r : Http.Request) : Simulation :=
  let authority := r.uri.authority?.getD ""
  match s.peers[x]? with
  | some peer =>
    if r.isSendable && reaches authority && peer != .absent then
      { s with arrived := s.arrived ++ [(x, r.send authority)] }.applyRouter
        (.replied x (peer.reply r.method))
    else s.applyRouter (.replied x .broken)
  | none => s.applyRouter (.replied x .broken)

def beginTask (s : Simulation) (errand : Errand) : Simulation × Place :=
  let c := s.nextCaller
  match errand with
  | .lookup key => (s.applyManager (.lookup c key), .caller c)
  | .ensure key timeout => (s.applyManager (.ensure c key timeout false), .caller c)
  | .tick => (s.applyUpkeep .tick, .tick s.router.upkeep.ticks.length)
  | .request r client? upgradable peer =>
    ({ s with peers := s.peers ++ [peer] }.applyRouter (.request c r client? upgradable),
      .exchange s.router.exchanges.length)
  | .ask method uri => (s.applyRouter (.ask c method uri), .ask s.router.asks.length)

def setPlace (s : Simulation) (n : Nat) (place : Place) : Simulation :=
  { s with tasks := s.tasks.modify n fun task => { task with place? := some place } }

def directResult (s : Simulation) : DirectCall → DirectResult × Simulation
  | .describe key =>
    match s.fleet.describe key with
    | .ok nodes => (.nodes nodes, s)
    | .error e => (.failed e, s)
  | .power call hostname =>
    match s.fleet.perform call hostname with
    | (.done, fleet) => (.done, s.withFleet fleet)
    | (.failed e, fleet) => (.failed e, s.withFleet fleet)

def perform (s : Simulation) : Job → Simulation
  | .describe c => s.apply (.described c)
  | .engage c => s.applyManager (.engage c)
  | .poll c => s.applyManager (.poll c)
  | .resume e =>
    match s.manager.wakes.find? e with
    | some wake => s.beginResume e wake
    | none => s
  | .resumed e => s.apply (.resumed e)
  | .overrun e => s.applyManager (.overrun e)
  | .deliver e => s.applyManager (.deliver e)
  | .enter l => s.applyUpkeep (.enter l)
  | .watch l =>
    s.applyFirst [.router (.upkeep (.settle l)), .router (.upkeep (.quit l)),
      .router (.upkeep (.ring l))]
  | .begin t =>
    match s.router.upkeep.ticks[t]? with
    | some tick => s.applyUpkeep (.begin t (s.manager.idleKeys tick.idleTimeout))
    | none => s
  | .pause t => s.apply (.paused t)
  | .breakDown t => s.applyUpkeep (.breakDown t)
  | .reply x =>
    match (s.router.exchanges[x]?).map Exchange.phase with
    | some (.forwarded r) => s.exchange x r
    | _ => s
  | .close x => s.applyRouter (.close x)
  | .expire a => s.applyRouter (.expire a)
  | .start n =>
    match s.tasks[n]? with
    | some task =>
      let (s, place) := s.beginTask task.errand
      s.setPlace n place
    | none => s
  | .call =>
    match s.direct? with
    | some (call, none) =>
      let (result, s) := s.directResult call
      { s with direct? := some (call, some result) }
    | _ => s
  | .alarm => s

/-! ## The passing of time -/

/-- Whether a job belongs to the work in that place. -/
def belongs (s : Simulation) (place : Place) : Job → Bool
  | .describe c | .poll c =>
    match place with
    | .caller c' => c == c'
    | .exchange x => (s.router.exchanges[x]?).any (·.isEnsuring c)
    | .ask a => (s.router.asks[a]?).any (·.isLooking c)
    | .tick _ => false
  | .pause t => place == .tick t
  | .expire a => place == .ask a
  | _ => false

/-- Whether the simulation waits for the job. -/
def isAwaited (s : Simulation) (job : Job) : Bool :=
  job == .call || s.awaited?.any fun place => s.belongs place job

/-- Go on to the next timer. -/
def advance? (s : Simulation) : Option Simulation :=
  match (s.timers.map Timer.due).min? with
  | none => none
  | some due =>
    let t := max due s.now
    let fired := s.timers.filter fun timer => timer.due ≤ t
    let jobs := (fired.mergeSort fun a b => decide (a.due ≤ b.due)).map Timer.job
    let (awaited, others) := jobs.partition s.isAwaited
    let s := s.applyManager (.elapse ⟨t - s.now⟩)
    some { s with
      timers := s.timers.filter fun timer => t < timer.due
      queue := s.queue ++ awaited ++ others }

/-- Work and let time pass until something is done, and all other work of that instant too. -/
def drive (isDone : Simulation → Bool) : (fuel : Nat) → Simulation → Simulation
  | 0, s => s
  | fuel + 1, s =>
    match s.queue with
    | job :: rest => drive isDone fuel (perform { s with queue := rest } job)
    | [] =>
      if isDone s then s
      else
        match s.advance? with
        | some s => drive isDone fuel s
        | none => s

/-- No more jobs than this are done while one waits for one thing. -/
def maxJobs : Nat := 100000000

def await (s : Simulation) (isDone : Simulation → Bool) : Simulation :=
  s.drive isDone maxJobs

/-- Wait until the work in a place is over. -/
def awaitPlace (s : Simulation) (place : Place) (isOver : Router → Bool) : Simulation :=
  { { s with awaited? := some place }.await fun s => isOver s.router with awaited? := none }

end Simulation

end WakeRouter
