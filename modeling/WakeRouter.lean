import WakeRouter.ControlPlane.Client
import WakeRouter.Main
import WakeRouter.Simulation.Service
import WakeRouter.Proofs.Run
import WakeRouter.Proofs.Manager.Run
import WakeRouter.Proofs.Manager.Step
import WakeRouter.Proofs.Manager.Wakes
import WakeRouter.Proofs.Manager.Records
import WakeRouter.Proofs.Manager.NoOrphans
import WakeRouter.Proofs.Manager.Coalescing
import WakeRouter.Proofs.Manager.Independence
import WakeRouter.Proofs.Manager.Answers
import WakeRouter.Proofs.Manager.Idleness
import WakeRouter.Proofs.Watcher.Step
import WakeRouter.Proofs.Watcher.Exclusion
import WakeRouter.Proofs.Router.Visits
import WakeRouter.Proofs.ControlPlane.Calls
import WakeRouter.Proofs.ControlPlane.Fleet
import WakeRouter.Proofs.Deployment.Power
import WakeRouter.Proofs.Deployment.Agreement
import WakeRouter.Proofs.Manager.Activity
import WakeRouter.Proofs.Manager.Isolation
import WakeRouter.Proofs.Watcher.Slots
import WakeRouter.Proofs.Watcher.Lifecycle
import WakeRouter.Proofs.Router.Sessions
import WakeRouter.Proofs.Manager.Settling
import WakeRouter.Proofs.Manager.Deadlines
import WakeRouter.Proofs.Manager.Cache
import WakeRouter.Proofs.Manager.Absence
import WakeRouter.Proofs.Proxy.HostKey
import WakeRouter.Proofs.Router.Callers
import WakeRouter.Proofs.Router.Questions
import WakeRouter.Proofs.Duration
import WakeRouter.Proofs.Net.Ip
import WakeRouter.Proofs.Net.Socket
import WakeRouter.Proofs.Toml.Documents
import WakeRouter.Proofs.Config.RoundTrip
import WakeRouter.Proofs.Config.Effective
import WakeRouter.Proofs.Watcher.Loops
import WakeRouter.Proofs.Watcher.Ticking
import WakeRouter.Proofs.Http.Headers
import WakeRouter.Proofs.Http.Targets
import WakeRouter.Proofs.Proxy.Forward
import WakeRouter.Proofs.Proxy.ForwardedFor
import WakeRouter.Proofs.Router.Exchanges
import WakeRouter.Proofs.Proxy.SingleHop
import WakeRouter.Proofs.Proxy.Rewriting
import WakeRouter.Proofs.Router.ForwardedHost
import WakeRouter.Proofs.Router.Returns
import WakeRouter.Proofs.Router.Stories
import WakeRouter.Proofs.Router.Outcomes
import WakeRouter.Proofs.Watcher.Fates
import WakeRouter.Proofs.Watcher.Accounts
import WakeRouter.Proofs.Endpoint
import WakeRouter.Proofs.Router.Switching
import WakeRouter.Proofs.Proxy.Ask
import WakeRouter.Proofs.Router.Lookups
import WakeRouter.Proofs.Router.Harmless
import WakeRouter.Proofs.Router.Asking
import WakeRouter.Proofs.Config.Layers
import WakeRouter.Proofs.Duration.Grammar
import WakeRouter.Proofs.Proxy.HostSpelling
import WakeRouter.Proofs.Router.SharedHosts
import WakeRouter.Proofs.Text.Utf8
import WakeRouter.Proofs.Json.Grammar
import WakeRouter.Proofs.Json.Strings
import WakeRouter.Proofs.Json.Reading
import WakeRouter.Proofs.Json.Writing
import WakeRouter.Proofs.Vm.NodeList
import WakeRouter.Proofs.ControlPlane.NodeLists
import WakeRouter.Proofs.Http.Authorities
import WakeRouter.Proofs.Proxy.MachineAuthority
import WakeRouter.Proofs.Router.Destinations
