import WakeRouter.ControlPlane.Error
import WakeRouter.Endpoint
import WakeRouter.Http.Peer
import WakeRouter.Net.ServerName
import WakeRouter.Vm.NodeList

/-!
# Calling the control plane over HTTP

The control plane lists the machines of a host group and resumes and pauses single ones.
Each call is one request over a new connection.  `Client.request` builds it, and
`Client.call` says what the caller learns from the peer at the other end.
-/

namespace WakeRouter

/-- A call to the control plane. -/
inductive ControlCall
  | list
  /-- The machines that serve a key. -/
  | describe (key : String)
  | resume (hostname : String)
  | pause (hostname : String)
deriving DecidableEq, Repr

structure Client where
  endpoint : Endpoint
  token : String
  hostGroup : String
  /-- The longest that a call may take. -/
  timeout : Duration

/-- The certificate that a peer shows, and whether the client trusts who signed it. -/
structure Certificate where
  name : String
  trusted : Bool

/-- What is at the other end of a control plane connection. -/
structure ControlPeer where
  http : Http.Peer
  certificate? : Option Certificate

inductive ControlAnswer
  | nodes (nodes : List Node)
  | done
deriving DecidableEq, Repr

namespace Client

def defaultTimeout : Duration := .ofSeconds 30

def userAgent : String := "relight/0.1.0"

def basePath (c : Client) : String :=
  match c.endpoint with
  | .http _ _ base => base
  | .https _ _ _ base => base
  | .socket _ => ""

def hostLine (c : Client) : String :=
  match c.endpoint with
  | .http _ authority _ => authority
  | .https _ authority _ _ => authority
  | .socket _ => "localhost"

def method : ControlCall → String
  | .list | .describe _ => "GET"
  | .resume _ | .pause _ => "POST"

/-- The path of a call below the base path.  Names stand in it as they are. -/
def path (c : Client) : ControlCall → String
  | .list | .describe _ => s!"/hostgroup/{c.hostGroup}/nodes"
  | .resume hostname => s!"/vm/{hostname}/resume"
  | .pause hostname => s!"/vm/{hostname}/pause"

def headerLines (c : Client) : List (String × String) :=
  [("host", c.hostLine), ("user-agent", userAgent),
    ("authorization", s!"Bearer {c.token}"), ("accept", "application/json")]

/-- The request of a call.  The target is checked before the header lines. -/
def request (c : Client) (call : ControlCall) : Except ControlError Http.Request := do
  let uri ← (Http.Uri.read (c.basePath ++ c.path call).toList).mapError
    fun fault => .request fault.message
  let headers ← c.headerLines.mapM fun (name, value) =>
    match Http.Header.make? name (Text.toUtf8 value.toList) with
    | some h => .ok h
    | none => .error (.request "failed to parse header value")
  .ok ⟨method call, uri, .v11, headers, .empty⟩

/-- Why a peer that is absent cannot be reached. -/
def absence (c : Client) : ControlError :=
  match c.endpoint with
  | .socket _ => .connect "No such file or directory (os error 2)"
  | _ => .connect "Connection refused (os error 111)"

def brokenReply : ControlError :=
  .http "connection closed before message completed"

/-- What the response to a request tells: the body of a success, or the error. -/
def readReply (c : Client) : Http.Reply → Except ControlError Bytes
  | .nothing => .error (.timeout c.timeout)
  | .broken => .error brokenReply
  | .response r =>
    if !r.body.complete then .error brokenReply
    else if r.isSuccess then .ok r.body.bytes
    else
      .error (.status r.status (String.ofList (Text.trim (Text.ofUtf8Lossy r.body.bytes))))

/-- Whether a certificate makes a client that expects `name` go on. -/
def accepts (certificate : Certificate) (name : String) : Bool :=
  certificate.trusted &&
    name.toList.map Char.toLower == certificate.name.toList.map Char.toLower

/-- Send a request over a new connection: the requests that arrive, and the body. -/
def exchange (c : Client) (peer : ControlPeer) (request : Http.Request) :
    List Http.Received × Except ControlError Bytes :=
  let arrived := [request.send c.hostLine]
  let sent := (arrived, c.readReply (peer.http.reply request.method))
  if peer.http = .absent then ([], .error c.absence)
  else
    match c.endpoint, peer.certificate? with
    | .https _ _ name _, some certificate =>
      if accepts certificate name then sent
      else ([], .error (.handshake "invalid peer certificate"))
    | .https .., none =>
      if peer.http = .silent then ([], .error (.timeout c.timeout))
      else ([], .error (.handshake "received corrupt message"))
    | _, some _ => ([], .error brokenReply)
    | _, none => sent

/-- One call: the requests that arrive at the peer, and what the caller learns. -/
def call (c : Client) (peer : ControlPeer) (call : ControlCall) :
    List Http.Received × Except ControlError ControlAnswer :=
  match c.request call with
  | .error e => ([], .error e)
  | .ok request =>
    let badName :=
      match c.endpoint with
      | .https _ _ name _ =>
        if Net.ServerName.isValid name.toList then none else some (ControlError.serverName name)
      | _ => none
    match badName with
    | some e => ([], .error e)
    | none =>
      let (arrived, result) := c.exchange peer request
      let answer := do
        let body ← result
        match call with
        | .resume _ | .pause _ => .ok .done
        | .list | .describe _ =>
          match NodeList.decode? body with
          | none => .error (.decode "not a list of nodes")
          | some nodes =>
            match call with
            | .describe key => .ok (.nodes (nodes.filter (·.serves key)))
            | _ => .ok (.nodes nodes)
      (arrived, answer)

end Client

end WakeRouter
