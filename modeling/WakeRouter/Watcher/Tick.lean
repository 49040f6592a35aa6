import WakeRouter.ControlPlane.Error

/-!
# One tick of a watcher

A tick goes through the keys that are idle when it begins and pauses their machines one
after another.
-/

namespace WakeRouter

structure TickStats where
  /-- Keys that were idle at the start. -/
  idle : Nat
  paused : Nat
  failed : Nat
  /-- Keys without a machine when their turn came. -/
  skipped : Nat
deriving DecidableEq, Repr

inductive TickPhase
  | scheduled
  /-- The control plane has been asked to pause the machine of a key; the other keys come
  after it. -/
  | pausing (key handle : String) (rest : List String)
  | done
  /-- A call broke down, and the tick with it. -/
  | broken
  | dropped
deriving DecidableEq, Repr

/-- A loop is known by its place in the order in which the loops were started. -/
abbrev LoopId := Nat

/-- A tick is known by its place in the order in which the ticks were scheduled. -/
abbrev TickId := Nat

/-- A watcher is known by its place in the order in which the watchers were installed. -/
abbrev WatcherId := Nat

/-- What a tick comes from. -/
inductive TickSource
  /-- The loop of a watcher, which ends the tick early when it is told to stop. -/
  | loop (l : LoopId)
  /-- Somebody who has hold of a watcher. -/
  | hand (w : WatcherId)
deriving DecidableEq, Repr

structure Tick where
  idleTimeout : Duration
  source : TickSource
  stats : TickStats
  phase : TickPhase
deriving DecidableEq, Repr

namespace Tick

def scheduled (idleTimeout : Duration) (source : TickSource) : Tick :=
  ⟨idleTimeout, source, ⟨0, 0, 0, 0⟩, .scheduled⟩

/-- The loop that the tick comes from. -/
def loop? (t : Tick) : Option LoopId :=
  match t.source with
  | .loop l => some l
  | .hand _ => none

/-- The watcher that somebody has hold of as long as the tick is under way. -/
def watcher? (t : Tick) : Option WatcherId :=
  match t.source with
  | .loop _ => none
  | .hand w => some w

def isOver (t : Tick) : Bool :=
  match t.phase with
  | .done | .broken | .dropped => true
  | .scheduled | .pausing .. => false

/-- Go on to the first of the keys that has a machine.  Nothing more is done once the tick
is to stop. -/
def proceed (handleOf : String → Option String) (stopped : Bool) (t : Tick) :
    List String → Tick
  | [] => { t with phase := .done }
  | key :: rest =>
    if stopped then { t with phase := .done }
    else
      match handleOf key with
      | none =>
        proceed handleOf stopped
          { t with stats := { t.stats with skipped := t.stats.skipped + 1 } } rest
      | some handle => { t with phase := .pausing key handle rest }

/-- Count a pause call that has ended. -/
def count (result : Acknowledgement) (t : Tick) : Tick :=
  match result with
  | .done => { t with stats := { t.stats with paused := t.stats.paused + 1 } }
  | .failed _ => { t with stats := { t.stats with failed := t.stats.failed + 1 } }

end Tick

end WakeRouter
