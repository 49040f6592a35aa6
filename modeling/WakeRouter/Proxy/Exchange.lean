import WakeRouter.Http.Peer
import WakeRouter.Manager.Basic
import WakeRouter.Proxy.Forward
import WakeRouter.Proxy.RequestKey

/-!
# One request through the router

A request that names no host is refused.  Otherwise its machine is made sure of, the
request is forwarded, and what the machine answers is handed back.  When the machine
switches protocols at the wish of the client, the two connections become one tunnel.
-/

namespace WakeRouter

/-- The answers that the router gives by itself. -/
inductive Refusal
  | noHost
  | notFound (key : String)
  | startingUp (key : String)
  | badAddress
  | unavailable (key : String)
  | unexpectedUpgrade
deriving DecidableEq, Repr

namespace Refusal

/-- After how many seconds a client may try again. -/
def retryAfter : Nat := 5

def response : Refusal → Http.Response
  | .noHost => .ofText 400 "could not determine hostname"
  | .notFound key => .ofText 404 s!"app for {key} not found"
  | .startingUp key =>
    let r := Http.Response.ofText 503 s!"app for {key} is starting up, please retry"
    let line := Http.Header.ofText "retry-after" (String.ofList (Text.writeNumber retryAfter))
    { r with headers := r.headers ++ [line] }
  | .badAddress => .ofText 502 "bad upstream"
  | .unavailable key => .ofText 502 s!"upstream for {key} unavailable"
  | .unexpectedUpgrade => .ofText 502 "unexpected upgrade"

/-- The refusal that an error of the manager leads to. -/
def ofError (key : String) (e : ManagerError) : Refusal :=
  if e.isNotFound then .notFound key else .startingUp key

end Refusal

inductive ExchangePhase
  /-- A caller of the manager waits for the machine. -/
  | ensuring (caller : CallerId)
  /-- The request has gone to the machine. -/
  | forwarded (r : Http.Request)
  | refused (refusal : Refusal)
  /-- The client has the machine's response. -/
  | answered (r : Http.Response)
  /-- The client has the machine's response, and the connections are one. -/
  | tunnelling (r : Http.Response)
  /-- The tunnel has ended. -/
  | closed (r : Http.Response)
  /-- The client went away without a response. -/
  | dropped
deriving DecidableEq, Repr

structure Exchange where
  request : Http.Request
  client? : Option Net.Ip
  /-- The client's connection can switch protocols. -/
  upgradable : Bool
  key : String
  phase : ExchangePhase
deriving DecidableEq, Repr

namespace Exchange

/-- Whether the client wants to switch protocols, and can. -/
def wantsUpgrade (x : Exchange) : Bool :=
  x.upgradable && x.request.headers.upgrade?.isSome

/-- What happens to the request once its machine has that address. -/
def forward (x : Exchange) (port : UInt16) (address : String) : ExchangePhase :=
  let authority := String.ofList (machineAuthority address.toList port)
  match x.request.forward? authority x.client? with
  | some r => .forwarded r
  | none => .refused .badAddress

/-- What becomes of the machine's answer. -/
def conclude (x : Exchange) (reply : Http.Reply) : ExchangePhase :=
  match reply with
  | .response r =>
    if r.status = 101 then
      if x.wantsUpgrade then .tunnelling r else .refused .unexpectedUpgrade
    else .answered { r with headers := r.headers.stripHopByHop }
  | .broken => .refused (.unavailable x.key)
  | .nothing => x.phase

/-- The response that the client gets. -/
def response? (x : Exchange) : Option Http.Response :=
  match x.phase with
  | .refused refusal => some (refusal.response.routed x.request.method)
  | .answered r => some (r.routed x.request.method)
  | .tunnelling r | .closed r => some r
  | .ensuring _ | .forwarded _ | .dropped => none

def isPending (x : Exchange) : Bool :=
  match x.phase with
  | .ensuring _ | .forwarded _ => true
  | _ => false

def isEnsuring (x : Exchange) (c : CallerId) : Bool :=
  x.phase = .ensuring c

end Exchange

end WakeRouter
