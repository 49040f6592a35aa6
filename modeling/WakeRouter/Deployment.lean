import WakeRouter.ControlPlane.Fleet
import WakeRouter.Router

/-!
# A router over a fleet

In a deployment the answers of the control plane are those of a fleet, given when a call
takes effect.
-/

namespace WakeRouter

structure Deployment where
  router : Router
  fleet : Fleet
deriving DecidableEq, Repr

namespace Deployment

inductive Event
  /-- What happens in the router, but for what the fleet has to say. -/
  | router (e : Router.Event)
  /-- The fleet answers a caller that asked for a description. -/
  | described (c : CallerId)
  /-- A resume call takes effect. -/
  | resumed (e : Episode)
  /-- The pause call of a tick takes effect. -/
  | paused (t : TickId)
  | fleet (change : Fleet.Change)

/-- Whether an event is an answer of the control plane. -/
def isAnswer : Router.Event → Bool
  | .upkeep (.manager (.described ..)) | .upkeep (.manager (.resumed ..))
  | .upkeep (.paused ..) => true
  | _ => false

def step (d : Deployment) : Event → Option Deployment
  | .router e =>
    if isAnswer e then none else (d.router.step e).map fun router => { d with router := router }
  | .described c => do
    let caller ← d.router.manager.callers.find? c
    let answer := d.fleet.describe caller.key
    let router ← d.router.step (.upkeep (.manager (.described c answer)))
    some { d with router := router }
  | .resumed e => do
    let wake ← d.router.manager.wakes.find? e
    let (result, fleet) := d.fleet.perform .resume wake.handle
    let router ← d.router.step (.upkeep (.manager (.resumed e result)))
    some ⟨router, fleet⟩
  | .paused t => do
    let tick ← d.router.upkeep.ticks[t]?
    match tick.phase with
    | .pausing _ handle _ =>
      let (result, fleet) := d.fleet.perform .pause handle
      let router ← d.router.step (.upkeep (.paused t result))
      some ⟨router, fleet⟩
    | _ => none
  | .fleet change => some { d with fleet := d.fleet.change change }

end Deployment

end WakeRouter
