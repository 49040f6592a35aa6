import WakeRouter.Http.Header
import WakeRouter.Http.Uri
import WakeRouter.Text.Number

/-!
# Requests and responses

A request names its target by a URI; once it is sent, only the target line is left of
that.  A body may be of a length that nobody knows before its end; it then comes in parts.
-/

namespace WakeRouter.Http

/-- The versions of the protocol, older and newer. -/
inductive Version
  | v10
  | v11
deriving DecidableEq, Repr

structure Body where
  /-- The pieces in which the body comes. -/
  parts : List Bytes
  /-- The length of the body is known from the start. -/
  sized : Bool
  /-- The body came to its end. -/
  complete : Bool
deriving DecidableEq, Repr

namespace Body

/-- A body that is there as a whole. -/
def ofBytes (bytes : Bytes) : Body :=
  ⟨[bytes], true, true⟩

def empty : Body := ofBytes []

def bytes (b : Body) : Bytes :=
  b.parts.flatten

/-- What somebody has who waits for all of the body: nothing, if it breaks off. -/
def whole (b : Body) : Bytes :=
  if b.complete then b.bytes else []

/-- Whether it is known from the start that there is no body. -/
def isNothing (b : Body) : Bool :=
  b.sized && b.complete && b.bytes.isEmpty

end Body

structure Request where
  method : String
  uri : Uri
  version : Version
  headers : Headers
  body : Body
deriving DecidableEq, Repr

/-- A request as its receiver sees it. -/
structure Received where
  method : String
  target : String
  headers : Headers
  body : Bytes
deriving DecidableEq, Repr

structure Response where
  status : Nat
  version : Version
  headers : Headers
  body : Body
deriving DecidableEq, Repr

namespace Header

def contentLength (n : Nat) : Header :=
  .ofText "content-length" (String.ofList (Text.writeNumber n))

end Header

namespace Headers

/-- Plain digits that stand for a number of 64 bits. -/
def readLength? (digits : List Char) : Option Nat :=
  if digits.head? = some '+' then none else Text.readNumber? (Nat.pow 2 64) digits

/-- The length that all content lengths agree on.  A line may give several, separated by
commas. -/
def contentLength? (headers : Headers) : Option Nat := do
  let lines ← (headers.all "content-length").mapM Header.text?
  let lengths ← (lines.flatMap (Text.pieces ',')).mapM fun piece => readLength? (Text.trim piece)
  let first ← lengths.head?
  if lengths.all (· == first) then some first else none

end Headers

/-- Why a request cannot be made. -/
inductive RequestFault
  | header
  | uri
deriving DecidableEq, Repr

namespace Request

/-- A request of these parts, when headers, method and target are well-formed. -/
def make (method : String) (target : String) (headers : List (String × Bytes)) (body : Bytes) :
    Except RequestFault Request :=
  match headers.mapM fun (name, value) => Header.make? name value with
  | none => .error .header
  | some headers =>
    if !Header.isValidName method.toList then .error .uri
    else
      match Uri.read target.toList with
      | .error _ => .error .uri
      | .ok uri => .ok ⟨method, uri, .v11, headers, .ofBytes body⟩

/-- Whether the method is one of those that should not have a body. -/
def isBodiless (r : Request) : Bool :=
  ["GET", "HEAD", "CONNECT"].contains r.method

/-- Whether the request asks for a tunnel to an authority. -/
def isConnect (r : Request) : Bool :=
  r.method == "CONNECT"

/-- Whether a body of the request is sent at all. -/
def sendsBody (r : Request) : Bool :=
  !r.body.isNothing && (r.body.sized || !r.isBodiless)

/-- Whether the request can be sent to its end: tunnels came with version 1.1, and a body
must not break off. -/
def isSendable (r : Request) : Bool :=
  (!r.isConnect || r.version = .v11) && (!r.sendsBody || r.body.complete)

/-- Head and body as they are sent.  A content length that the headers agree on governs; a
wrong one gives way to that of the body.  A body of unknown length is sent in chunks, or
not at all by methods that should not have one. -/
def framed (r : Request) (headers : Headers) : Headers × Bytes :=
  if r.body.isNothing then (headers, [])
  else
    match headers.contentLength? with
    | some n => (headers, r.body.bytes.take n)
    | none =>
      if r.body.sized then (headers.set (.contentLength r.body.bytes.length), r.body.bytes)
      else if r.isBodiless then (headers, [])
      else (headers ++ [.ofText "transfer-encoding" "chunked"], r.body.bytes)

/-- A request as it arrives when it is sent to `authority`.  The sender adds a `Host` line
where there is none. -/
def send (r : Request) (authority : String) : Received :=
  let (headers, body) := r.framed <| r.headers.setDefault
    (.ofText "host" (String.ofList (Uri.hostLine authority.toList)))
  { method := r.method
    target := if r.isConnect then authority else r.uri.pathAndQuery?.getD "/"
    headers := headers.map Header.trimmed
    body := body }

end Request

namespace Response

/-- A response with a text of this program's own. -/
def ofText (status : Nat) (text : String) : Response where
  status := status
  version := .v11
  headers := [.ofText "content-type" "text/plain; charset=utf-8"]
  body := .ofBytes (Text.toUtf8 text.toList)

def isSuccess (r : Response) : Bool :=
  200 ≤ r.status && r.status < 300

/-- A response as a router hands it out: with the length of its body where that is known,
and without the body when only the head was asked for.  What opens a tunnel has no body. -/
def routed (method : String) (r : Response) : Response :=
  if method == "CONNECT" && r.isSuccess then { r with body := .empty }
  else
    let headers :=
      if r.body.sized then r.headers.setDefault (.contentLength r.body.bytes.length)
      else r.headers
    { r with
      headers := headers
      body := if method == "HEAD" then .empty else r.body }

end Response

end WakeRouter.Http
