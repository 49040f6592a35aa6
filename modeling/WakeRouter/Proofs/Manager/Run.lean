import WakeRouter.Manager.Basic
import WakeRouter.Proofs.Run

/-!
# Runs of the manager

A run is a list of events, each of which can happen when its turn comes.  The trail of a
run lists its steps with the managers before and after them; what a statement says about
the history of a run, it says about the trail.
-/

namespace WakeRouter.Manager

/-- The manager after the events, when each of them can happen in its turn. -/
abbrev run (m : Manager) (es : List Event) : Option Manager :=
  Run.after? step m es

abbrev Transition := Run.Transition Manager Event

/-- The steps of a run, up to the first event that cannot happen. -/
abbrev trail (m : Manager) (es : List Event) : List Transition :=
  Run.trail step m es

/-- Some events lead from the one manager to the other. -/
abbrev Reaches (m : Manager) : Manager → Prop :=
  Run.ReachesBy step (fun _ => True) m

theorem reaches_of_step {m next : Manager} {e : Event} (hstep : m.step e = some next) :
    m.Reaches next :=
  .of_step trivial hstep

/-- A call of the control plane that the manager makes. -/
inductive Call
  | describe (c : CallerId) (key : String)
  | resume (e : Episode) (handle : String)
deriving DecidableEq, Repr

/-- The call that begins with the event. -/
def call? (m : Manager) : Event → Option Call
  | .lookup c key | .ensure c key _ _ =>
    if (m.records.find? key).isNone then some (.describe c key) else none
  | .resume e => (m.wakes.find? e).map fun wake => .resume e wake.handle
  | _ => none

/-- The calls of a run in the order in which they begin. -/
def calls (m : Manager) (es : List Event) : List Call :=
  (m.trail es).filterMap fun t => t.before.call? t.event

end WakeRouter.Manager
