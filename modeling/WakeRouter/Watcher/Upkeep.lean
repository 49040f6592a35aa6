import WakeRouter.Manager.Basic
import WakeRouter.Watcher.Tick
import WakeRouter.Watcher.Ticker

/-!
# The manager and the watchers of its idle machines

A watcher that is started runs a loop, which ticks after each interval until it is told to
stop.  A loop that is told to stop may outlive that, but starts no further pause call.

One watcher at most is installed.  A tick by hand has hold of its watcher, too; the loop of
a watcher that nobody has hold of any more is told to stop.
-/

namespace WakeRouter

inductive LoopPhase
  | starting
  | waiting (due : Instant)
  /-- A tick is under way; the next one is due at `next`. -/
  | ticking (tick : TickId) (next : Instant)
  | finished
  /-- The loop could not set up its ticker. -/
  | broken
deriving DecidableEq, Repr

structure Loop where
  schedule : Schedule
  /-- The loop has been told to stop. -/
  stopping : Bool
  phase : LoopPhase
deriving DecidableEq, Repr

namespace Loop

def isOver (l : Loop) : Bool :=
  match l.phase with
  | .finished | .broken => true
  | .starting | .waiting _ | .ticking .. => false

end Loop

structure Watcher where
  schedule : Schedule
  /-- The loop that was started last, unless it has been told to stop. -/
  slot? : Option LoopId
deriving DecidableEq, Repr

structure Upkeep where
  manager : Manager
  watchers : List Watcher
  installed? : Option WatcherId
  loops : List Loop
  ticks : List Tick
deriving DecidableEq, Repr

namespace Upkeep

def ofManager (manager : Manager) : Upkeep := ⟨manager, [], none, [], []⟩

/-- The watcher that is installed. -/
def watcher? (u : Upkeep) : Option Watcher :=
  u.installed?.bind fun w => u.watchers[w]?

def isLoopOver (u : Upkeep) (l : LoopId) : Bool :=
  (u.loops[l]?).all Loop.isOver

/-- Whether the watcher has a loop that is not over. -/
def isRunning (u : Upkeep) (w : Watcher) : Bool :=
  w.slot?.any fun l => !u.isLoopOver l

def setLoop (u : Upkeep) (l : LoopId) (f : Loop → Loop) : Upkeep :=
  { u with loops := u.loops.modify l f }

def setSlot (u : Upkeep) (w : WatcherId) (slot? : Option LoopId) : Upkeep :=
  { u with watchers := u.watchers.modify w fun watcher => { watcher with slot? := slot? } }

/-- Start a loop unless the watcher has one. -/
def start (u : Upkeep) (w : WatcherId) : Upkeep :=
  match u.watchers[w]? with
  | none => u
  | some watcher =>
    if u.isRunning watcher then u
    else
      { u.setSlot w (some u.loops.length) with
        loops := u.loops ++ [⟨watcher.schedule, false, .starting⟩] }

/-- Tell the loop of the watcher to stop. -/
def stop (u : Upkeep) (w : WatcherId) : Upkeep :=
  match (u.watchers[w]?).bind Watcher.slot? with
  | none => u
  | some l => (u.setSlot w none).setLoop l fun loop => { loop with stopping := true }

/-- Whether somebody has hold of the watcher. -/
def isHeld (u : Upkeep) (w : WatcherId) : Bool :=
  u.installed? == some w || u.ticks.any fun tick => tick.watcher? == some w && !tick.isOver

/-- A watcher goes away, and stops its loop, once nobody has hold of it. -/
def release (u : Upkeep) (w : WatcherId) : Upkeep :=
  if u.isHeld w then u else u.stop w

/-- A tick that ends lets go of its watcher. -/
def setTick (u : Upkeep) (t : TickId) (tick : Tick) : Upkeep :=
  let u := { u with ticks := u.ticks.set t tick }
  tick.watcher?.elim u u.release

def discard (u : Upkeep) : Upkeep :=
  match u.installed? with
  | none => u
  | some w => { u with installed? := none }.release w

def install (u : Upkeep) (schedule : Schedule) : Upkeep :=
  let u := u.discard
  { u with
    watchers := u.watchers ++ [⟨schedule, none⟩]
    installed? := some u.watchers.length }

def schedule (u : Upkeep) (tick : Tick) : Upkeep :=
  { u with ticks := u.ticks ++ [tick] }

/-- Whether a tick belongs to a loop that has been told to stop. -/
def isStopped (u : Upkeep) (tick : Tick) : Bool :=
  (tick.loop?.bind fun l => u.loops[l]?).any Loop.stopping

def proceed (u : Upkeep) (t : TickId) (tick : Tick) (keys : List String) : Upkeep :=
  u.setTick t (tick.proceed u.manager.handle? (u.isStopped tick) keys)

/-- A tick looks for idle keys; they may come in any order. -/
def begin (u : Upkeep) (t : TickId) (tick : Tick) (keys : List String) : Upkeep :=
  u.proceed t { tick with stats := { tick.stats with idle := keys.length } } keys

/-- A pause call of a tick ends. -/
def paused (u : Upkeep) (t : TickId) (tick : Tick) (key : String) (rest : List String)
    (result : Acknowledgement) : Upkeep :=
  let manager :=
    match result with
    | .done => u.manager.markPaused key
    | .failed _ => u.manager
  { u with manager := manager }.proceed t (tick.count result) rest

inductive Event
  | manager (e : Manager.Event)
  /-- A new watcher takes the place of the old one. -/
  | install (schedule : Schedule)
  | discard
  | start
  | stop
  /-- A loop sets up its ticker. -/
  | enter (l : LoopId)
  /-- The ticker of a loop fires. -/
  | ring (l : LoopId)
  /-- The tick of a loop is over. -/
  | settle (l : LoopId)
  /-- A waiting loop ends because it has been told to stop. -/
  | quit (l : LoopId)
  /-- A tick of the watcher by hand. -/
  | tick
  | begin (t : TickId) (keys : List String)
  | paused (t : TickId) (result : Acknowledgement)
  | breakDown (t : TickId)
  /-- A tick by hand is given up. -/
  | dropTick (t : TickId)

def step (u : Upkeep) : Event → Option Upkeep
  | .manager e => (u.manager.step e).map fun manager => { u with manager := manager }
  | .install schedule => some (u.install schedule)
  | .discard => some u.discard
  | .start => u.installed?.map u.start
  | .stop => u.installed?.map u.stop
  | .enter l => do
    let loop ← u.loops[l]?
    match loop.phase with
    | .starting =>
      let phase :=
        match Ticker.first? u.manager.now loop.schedule.interval with
        | some due => .waiting due
        | none => .broken
      some (u.setLoop l fun loop => { loop with phase := phase })
    | _ => none
  | .ring l => do
    let loop ← u.loops[l]?
    match loop.phase with
    | .waiting due =>
      if due ≤ u.manager.now then
        let next := Ticker.next u.manager.now due loop.schedule.interval
        let u := u.setLoop l fun loop => { loop with phase := .ticking u.ticks.length next }
        some (u.schedule (.scheduled loop.schedule.idleTimeout (.loop l)))
      else none
    | _ => none
  | .settle l => do
    let loop ← u.loops[l]?
    match loop.phase with
    | .ticking t next =>
      if (u.ticks[t]?).all Tick.isOver then
        some (u.setLoop l fun loop => { loop with phase := .waiting next })
      else none
    | _ => none
  | .quit l => do
    let loop ← u.loops[l]?
    match loop.phase with
    | .waiting _ =>
      if loop.stopping then some (u.setLoop l fun loop => { loop with phase := .finished })
      else none
    | _ => none
  | .tick => do
    let w ← u.installed?
    let watcher ← u.watchers[w]?
    some (u.schedule (.scheduled watcher.schedule.idleTimeout (.hand w)))
  | .begin t keys => do
    let tick ← u.ticks[t]?
    match tick.phase with
    | .scheduled =>
      if keys.isPerm (u.manager.idleKeys tick.idleTimeout) then some (u.begin t tick keys)
      else none
    | _ => none
  | .paused t result => do
    let tick ← u.ticks[t]?
    match tick.phase with
    | .pausing key _ rest => some (u.paused t tick key rest result)
    | _ => none
  | .breakDown t => do
    let tick ← u.ticks[t]?
    match tick.phase with
    | .pausing .. => some (u.setTick t { tick with phase := .broken })
    | _ => none
  | .dropTick t => do
    let tick ← u.ticks[t]?
    if tick.isOver || tick.loop?.isSome then none
    else some (u.setTick t { tick with phase := .dropped })

end Upkeep

end WakeRouter
