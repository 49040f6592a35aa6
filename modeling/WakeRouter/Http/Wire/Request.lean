import WakeRouter.Http.Wire.Response

/-!
# Requests on a connection, and their answers

A request is read with all care, because somebody else may read it in another way: what is
not well-formed is refused.  Its answer says by a length, or by chunks, where it ends, and
whether the connection goes on.
-/

namespace WakeRouter.Http.Wire

namespace Fault

def status : Fault → Nat
  | .malformed => 400
  | .targetTooLong => 414
  | .tooManyHeaders | .bodyTooLong => 431

/-- The answer to bytes that are no request. -/
def response (f : Fault) : Response where
  status := f.status
  version := .v11
  headers := [.ofText "connection" "close", .contentLength 0]
  body := .empty

end Fault

/-- The parts of a request line. -/
structure RequestLine where
  method : String
  target : List Char
  version : Version

/-- A method, a target and a version, with single spaces between them. -/
def requestLine? (line : Bytes) : Option RequestLine := do
  match Text.pieces ' ' (← Text.ofUtf8? line) with
  | [method, target, version] =>
    if !Header.isValidName method then none
    else if version = versionName .v11 then some ⟨String.ofList method, target, .v11⟩
    else if version = versionName .v10 then some ⟨String.ofList method, target, .v10⟩
    else none
  | _ => none

/-- What the header lines have said about the body so far. -/
structure Framing where
  /-- There is a coding, and whether the last one is `chunked`. -/
  chunked? : Option Bool
  length? : Option Nat

namespace Framing

/-- Take up a header line.  Codings came with version 1.1, and a length behind a coding does
not count; all other lengths are plain digits and agree. -/
def step (version : Version) (f : Framing) (h : Header) : Except Fault Framing :=
  if h.name == "transfer-encoding" then
    if version = .v10 then .error .malformed else .ok { f with chunked? := some (endsChunked h) }
  else if h.name == "content-length" && f.chunked?.isNone then
    match h.text?.bind Headers.readLength? with
    | none => .error .malformed
    | some n =>
      if f.length?.any (· != n) then .error .malformed
      else if n > maxBodyLength then .error .bodyTooLong
      else .ok { f with length? := some n }
  else .ok f

end Framing

/-- A request read off a connection. -/
structure Arrived where
  request : Request
  /-- The head gave both a coding and a length. -/
  ambiguous : Bool

def readRequest (bytes : Bytes) : Except Fault Arrived := do
  let (line, rest) ← (takeLine? (skipEmptyLines bytes)).elim (.error .malformed) .ok
  let first ← (requestLine? line).elim (.error .malformed) .ok
  let (headers, rest) ← headers maxHeaders rest
  let uri ← (Uri.read first.target).mapError fun fault =>
    if fault = .tooLong then .targetTooLong else .malformed
  let framing ← headers.foldlM (Framing.step first.version) ⟨none, none⟩
  match framing.chunked? with
  | some false => .error .malformed
  | some true =>
    .ok ⟨⟨first.method, uri, first.version, headers.erase "content-length", chunkedBody rest⟩,
      headers.has "content-length"⟩
  | none =>
    let n := framing.length?.getD 0
    .ok ⟨⟨first.method, uri, first.version, headers.firstOnly "content-length",
      ⟨[rest.take n], true, n ≤ rest.length⟩⟩, false⟩

namespace Arrived

def asks (a : Arrived) (token : String) : Bool :=
  a.request.headers.listsToken "connection" token

/-- Whether the end of the body stays unread when the request is passed on: chunks that are
not sent are not read either. -/
def leavesBody (a : Arrived) : Bool :=
  a.request.isBodiless && !a.request.body.sized &&
    !(a.request.body.complete && a.request.body.bytes.isEmpty)

/-- What the answer says about the connection, if it must: that it ends, where it would go
on by itself, or the other way round. -/
def connection? (a : Arrived) (passedOn : Bool) (r : Response) : Option String :=
  match a.request.version, r.version with
  | .v11, _ =>
    if a.asks "close" || a.ambiguous || (passedOn && a.leavesBody) then some "close" else none
  | .v10, .v11 => if a.asks "keep-alive" && !a.asks "close" then some "keep-alive" else none
  | .v10, .v10 => none

/-- Head and body of the answer as they are sent.  A length that the headers give governs;
chunks are for those who both speak version 1.1. -/
def framed (a : Arrived) (r : Response) : Headers × Bytes :=
  let method := a.request.method
  if r.status = 101 then ((r.headers.erase "content-length").erase "transfer-encoding", [])
  else if method == "HEAD" || (a.request.isConnect && r.isSuccess) then (r.headers, [])
  else if isBodiless method r.status then (r.headers.erase "content-length", [])
  else if r.body.isNothing then (r.headers.set (.contentLength 0), [])
  else if r.body.sized then
    (r.headers.setDefault (.contentLength r.body.bytes.length), r.body.bytes)
  else
    match r.headers.contentLength? with
    | some n => (r.headers, r.body.bytes.take n)
    | none =>
      if a.request.version = .v11 && r.version = .v11 then
        (r.headers.set (.ofText "transfer-encoding" "chunked"), inChunks r.body)
      else (r.headers, r.body.bytes)

/-- An answer as it goes out over the connection that the request came over, which may have
been passed on before.  Its body is what stands on the connection behind the head. -/
def answer (a : Arrived) (passedOn : Bool) (r : Response) : Response :=
  let (headers, body) := a.framed r
  let token := (a.connection? passedOn r).map fun token => Header.ofText "connection" token
  { r with
    headers := Headers.joined (headers ++ token.toList) "connection"
    body := .ofBytes body }

end Arrived

end WakeRouter.Http.Wire
