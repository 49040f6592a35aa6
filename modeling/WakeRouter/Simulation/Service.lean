import WakeRouter.Config.Basic
import WakeRouter.Simulation.Script

/-!
# The whole service in virtual time

The service sets up router and watcher as its configuration says, and takes connections
on two doors: requests for the machines, and questions about domains.  The second door is
there only when the service is told to listen on it.
-/

namespace WakeRouter

inductive Door
  | requests
  | questions
deriving DecidableEq, Repr

/-- What somebody sends over a connection of its own. -/
structure Visit where
  door : Door
  bytes : Bytes
deriving DecidableEq, Repr

structure Service where
  asks : Bool
  /-- Where the visitors come from. -/
  visitor : Net.Ip
  /-- What listens on the port of the machines. -/
  peer : Http.Peer

namespace Service

/-- A router as configured, with its watcher started. -/
def start (config : Config) (nodes : List Node) (port : UInt16) : Simulation :=
  let routing := config.routing
  let s := Simulation.start nodes Manager.defaultResumeDeadline port routing.wakeTimeout
  let s := s.applyUpkeep (.install ⟨routing.watchInterval, routing.idleTimeout⟩)
  (s.applyUpkeep .start).await fun _ => true

/-- Let a visitor in and see how it is answered; a door that is not there gives nothing. -/
def receive (service : Service) (s : Simulation) (visit : Visit) :
    Simulation.Finding × Simulation :=
  match visit.door with
  | .requests => s.tunnel visit.bytes [] .zero (some service.visitor) service.peer
  | .questions => if service.asks then s.question visit.bytes else (.nothing, s)

/-- The views after the visits, one after another. -/
def serve (service : Service) : Simulation → List Visit → List Simulation.View
  | _, [] => []
  | s, visit :: rest =>
    let (finding, s) := service.receive { s with arrived := [] } visit
    let s := s.await fun _ => true
    s.view [] finding :: service.serve s rest

end Service

end WakeRouter
