import WakeRouter.Http.Wire.Response

/-!
# Peers with prepared answers

What a server at the other end of a connection does is prepared beforehand: it answers,
it closes the connection, it stays silent, or it is not there at all.  Whatever it sends
is read like the answer of any other server.
-/

namespace WakeRouter.Http

inductive Peer
  /-- Sends an answer with these header lines, which need not be well-formed. -/
  | answers (status : Nat) (lines : List (String × String)) (body : Bytes)
  /-- Sends exactly these bytes after the request and closes. -/
  | sends (bytes : Bytes)
  /-- Sends these bytes before any request. -/
  | blurts (bytes : Bytes)
  | closes
  | silent
  | absent
deriving DecidableEq, Repr

/-- What comes back for a request. -/
inductive Reply
  | response (r : Response)
  /-- The connection ended, or what came is no response. -/
  | broken
  | nothing
deriving DecidableEq, Repr

namespace Peer

/-- A line and its end. -/
def line (text : String) : Bytes :=
  Text.toUtf8 text.toList ++ [Wire.cr, Wire.lf]

/-- A prepared answer as it is sent.  Behind the prepared lines it says how long its body is
and that the connection closes; a switch of the protocol says neither. -/
def written (status : Nat) (lines : List (String × String)) (body : Bytes) : Bytes :=
  let body := if status = 101 || status = 204 || status = 304 then [] else body
  let own :=
    if status = 101 then []
    else [("content-length", s!"{body.length}"), ("connection", "close")]
  line s!"HTTP/1.1 {status} OK" ++
    (lines ++ own).flatMap (fun (name, value) => line s!"{name}: {value}") ++ line "" ++ body

/-- What the peer sends back once it has read a request with that method. -/
def reply (peer : Peer) (method : String) : Reply :=
  let answer := fun bytes => (Wire.readResponse? method bytes).elim Reply.broken .response
  match peer with
  | .answers status lines body => answer (written status lines body)
  | .sends bytes | .blurts bytes => answer bytes
  | .closes => .broken
  | .silent => .nothing
  | .absent => .broken

end Peer

end WakeRouter.Http
