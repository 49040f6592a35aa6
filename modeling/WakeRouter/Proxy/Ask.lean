import WakeRouter.Http.Message
import WakeRouter.Manager.Basic
import WakeRouter.Text.Form

/-!
# May a certificate be issued

Whoever terminates TLS asks, before it orders a certificate, whether a domain has a
machine: `GET /check?domain=example.com`.  The answer comes from the manager's records; no
machine is woken for it.
-/

namespace WakeRouter

/-- The answers to a question. -/
inductive AskVerdict
  | missingDomain
  | repeatedDomain
  | lookupFailed
  | notFound
  | approved
  | wrongMethod
  | wrongPath
  /-- The target is no path at all. -/
  | noPath
deriving DecidableEq, Repr

namespace AskVerdict

def response (method : String) : AskVerdict → Http.Response
  | .missingDomain => (Http.Response.ofText 400 "missing domain parameter").routed method
  | .repeatedDomain =>
    (Http.Response.ofText 400
      "Failed to deserialize query string: duplicate field \x60domain\x60").routed method
  | .lookupFailed => (Http.Response.ofText 500 "lookup failed").routed method
  | .notFound => (Http.Response.ofText 404 "not found").routed method
  | .approved => (Http.Response.ofText 200 "ok\n").routed method
  | .wrongMethod =>
    ⟨405, .v11, [.ofText "allow" "GET,HEAD", .contentLength 0], .empty⟩
  | .wrongPath => ⟨404, .v11, [], .empty⟩
  | .noPath => ⟨404, .v11, [.contentLength 0], .empty⟩

/-- What the manager's answer says about the domain. -/
def ofAnswer : Answer → AskVerdict
  | .record r => if r.state = .notFound then .notFound else .approved
  | .address _ => .approved
  | .error _ => .lookupFailed

end AskVerdict

inductive AskPhase
  /-- A caller of the manager looks the domain up. -/
  | looking (caller : CallerId) (since : Instant)
  | answered (verdict : AskVerdict)
  | dropped
deriving DecidableEq, Repr

structure Ask where
  method : String
  phase : AskPhase
deriving DecidableEq, Repr

namespace Ask

/-- A lookup may take that long. -/
def limit : Duration := .ofSeconds 10

def path : List Char := "/check".toList

/-- The domain that a query asks about. -/
def domain? (query : List Char) : Except AskVerdict String :=
  match (Text.readForm query).filter fun field => field.1 == "domain".toList with
  | [] => .error .missingDomain
  | [(_, domain)] =>
    if domain.isEmpty then .error .missingDomain else .ok (String.ofList domain)
  | _ => .error .repeatedDomain

/-- The domain that a request asks about. -/
def question? (method : String) (uri : Http.Uri) : Except AskVerdict String :=
  let target := (uri.pathAndQuery?.getD "").toList
  if target.head? != some '/' then .error .noPath
  else if target.takeWhile (· != '?') != path then .error .wrongPath
  else if method != "GET" && method != "HEAD" then .error .wrongMethod
  else domain? ((target.dropWhile (· != '?')).drop 1)

def response? (a : Ask) : Option Http.Response :=
  match a.phase with
  | .answered verdict => some (verdict.response a.method)
  | .looking .. | .dropped => none

def isLooking (a : Ask) (c : CallerId) : Bool :=
  match a.phase with
  | .looking c' _ => c' == c
  | _ => false

end Ask

end WakeRouter
