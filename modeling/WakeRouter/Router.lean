import WakeRouter.Proxy.Ask
import WakeRouter.Proxy.Exchange
import WakeRouter.Watcher.Upkeep

/-!
# The router

The router takes requests and questions about domains.  Both are callers of its manager;
as soon as the manager has an answer for one of them, the router goes on with it.
-/

namespace WakeRouter

structure Router where
  upkeep : Upkeep
  /-- The port that the machines listen on. -/
  port : UInt16
  wakeTimeout : Duration
  /-- Requests wait for machines no longer. -/
  stopping : Bool
  exchanges : List Exchange
  asks : List Ask
deriving DecidableEq, Repr

/-- An exchange is known by its place in the order in which the requests came. -/
abbrev ExchangeId := Nat

/-- A question is known by its place in the order in which the questions came. -/
abbrev AskId := Nat

namespace Router

def start (resumeDeadline : Duration) (port : UInt16) (wakeTimeout : Duration) : Router where
  upkeep := .ofManager (.start resumeDeadline)
  port := port
  wakeTimeout := wakeTimeout
  stopping := false
  exchanges := []
  asks := []

def manager (r : Router) : Manager :=
  r.upkeep.manager

def now (r : Router) : Instant :=
  r.manager.now

def withManager (r : Router) (m : Manager) : Router :=
  { r with upkeep := { r.upkeep with manager := m } }

def setExchange (r : Router) (x : ExchangeId) (phase : ExchangePhase) : Router :=
  { r with exchanges := r.exchanges.modify x fun exchange => { exchange with phase := phase } }

def setAsk (r : Router) (a : AskId) (phase : AskPhase) : Router :=
  { r with asks := r.asks.modify a fun ask => { ask with phase := phase } }

/-- Go on with a request whose caller has an answer.  A request that is forwarded is
noted as activity first. -/
def dispatch (r : Router) (x : ExchangeId) (exchange : Exchange) (a : Answer) : Router :=
  match a with
  | .error e => r.setExchange x (.refused (.ofError exchange.key e))
  | .address address =>
    (r.withManager (r.manager.touch exchange.key)).setExchange x (exchange.forward r.port address)
  | .record s =>
    (r.withManager (r.manager.touch exchange.key)).setExchange x (exchange.forward r.port s.address)

/-- Go on with what the caller belongs to, once the caller has an answer. -/
def attend (r : Router) (c : CallerId) : Router :=
  match (r.manager.callers.find? c).bind Caller.answer? with
  | none => r
  | some answer =>
    match r.exchanges.findIdx? (·.isEnsuring c), r.asks.findIdx? (·.isLooking c) with
    | some x, _ =>
      match r.exchanges[x]? with
      | some exchange => r.dispatch x exchange answer
      | none => r
    | none, some a => r.setAsk a (.answered (.ofAnswer answer))
    | none, none => r

/-- Whether a request or a question waits for the caller. -/
def owns (r : Router) (c : CallerId) : Bool :=
  r.exchanges.any (·.isEnsuring c) || r.asks.any (·.isLooking c)

/-- The caller that an event lets go on. -/
def subject? : Manager.Event → Option CallerId
  | .described c _ | .engage c | .poll c => some c
  | _ => none

/-- The caller that an event takes back; those of requests and questions are taken back
with these. -/
def withdrawn? : Manager.Event → Option CallerId
  | .cancel c | .leave c => some c
  | _ => none

/-- A request comes; `c` is the name of its caller, should it need one. -/
def request (r : Router) (c : CallerId) (request : Http.Request) (client? : Option Net.Ip)
    (upgradable : Bool) : Router :=
  match requestKey? request.headers request.uri with
  | none =>
    { r with
      exchanges := r.exchanges ++ [⟨request, client?, upgradable, "", .refused .noHost⟩] }
  | some key =>
    let m := r.manager.arrive c key (.ensure r.wakeTimeout) r.stopping
    let exchange : Exchange := ⟨request, client?, upgradable, key, .ensuring c⟩
    { r.withManager m with exchanges := r.exchanges ++ [exchange] }

/-- A question comes; `c` is the name of its caller, should it need one. -/
def ask (r : Router) (c : CallerId) (method : String) (uri : Http.Uri) : Router :=
  match Ask.question? method uri with
  | .error verdict => { r with asks := r.asks ++ [⟨method, .answered verdict⟩] }
  | .ok domain =>
    let m := r.manager.arrive c domain .lookup false
    let question : Ask := ⟨method, .looking c r.now⟩
    ({ r.withManager m with asks := r.asks ++ [question] }).attend c

/-- Tell the callers of all requests that they need not wait. -/
def shutDown (r : Router) : Router :=
  let m := r.exchanges.foldl (fun m exchange =>
    match exchange.phase with
    | .ensuring c => (m.step (.cancel c)).getD m
    | _ => m) r.manager
  { r.withManager m with stopping := true }

inductive Event
  | upkeep (e : Upkeep.Event)
  | request (c : CallerId) (request : Http.Request) (client? : Option Net.Ip) (upgradable : Bool)
  /-- The machine answers a request. -/
  | replied (x : ExchangeId) (reply : Http.Reply)
  /-- A tunnel ends. -/
  | close (x : ExchangeId)
  | dropRequest (x : ExchangeId)
  | ask (c : CallerId) (method : String) (uri : Http.Uri)
  /-- The lookup for a question takes too long. -/
  | expire (a : AskId)
  | dropAsk (a : AskId)
  | shutDown

/-- Give up a caller that a request or a question waits for. -/
def giveUp (r : Router) (c : CallerId) : Router :=
  r.withManager ((r.manager.step (.leave c)).getD r.manager)

def step (r : Router) : Event → Option Router
  | .upkeep (.manager e) =>
    if (withdrawn? e).any r.owns then none
    else
      (r.manager.step e).map fun m =>
        match subject? e with
        | some c => (r.withManager m).attend c
        | none => r.withManager m
  | .upkeep e => (r.upkeep.step e).map fun upkeep => { r with upkeep := upkeep }
  | .request c request client? upgradable =>
    if r.manager.callers.has c then none else some (r.request c request client? upgradable)
  | .replied x reply => do
    let exchange ← r.exchanges[x]?
    match exchange.phase with
    | .forwarded _ => some (r.setExchange x (exchange.conclude reply))
    | _ => none
  | .close x => do
    let exchange ← r.exchanges[x]?
    match exchange.phase with
    | .tunnelling response =>
      some ((r.withManager (r.manager.touch exchange.key)).setExchange x (.closed response))
    | _ => none
  | .dropRequest x => do
    let exchange ← r.exchanges[x]?
    match exchange.phase with
    | .ensuring c => some ((r.giveUp c).setExchange x .dropped)
    | .forwarded _ => some (r.setExchange x .dropped)
    | _ => none
  | .ask c method uri =>
    if r.manager.callers.has c then none else some (r.ask c method uri)
  | .expire a => do
    let ask ← r.asks[a]?
    match ask.phase with
    | .looking c since =>
      if since + Ask.limit.nanos ≤ r.now then
        some ((r.giveUp c).setAsk a (.answered .lookupFailed))
      else none
    | _ => none
  | .dropAsk a => do
    let ask ← r.asks[a]?
    match ask.phase with
    | .looking c _ => some ((r.giveUp c).setAsk a .dropped)
    | _ => none
  | .shutDown => some r.shutDown

end Router

end WakeRouter
