import WakeRouter.Http.Wire.Chunk

/-!
# Responses on a connection

The body of a response is as long as its head says: by a length, in chunks, or up to the
end of the connection.  A response to `CONNECT` that opens a tunnel has none, and neither
have the statuses that never have one.
-/

namespace WakeRouter.Http.Wire

structure StatusLine where
  version : Version
  status : Nat

def versionName : Version → List Char
  | .v10 => "HTTP/1.0".toList
  | .v11 => "HTTP/1.1".toList

/-- What follows the text at the front. -/
def after? (text : List Char) (s : Bytes) : Option Bytes :=
  let bytes := Text.toUtf8 text
  if bytes.isPrefixOf s then some (s.drop bytes.length) else none

/-- The version and what follows it. -/
def version? (s : Bytes) : Option (Version × Bytes) :=
  match after? (versionName .v11) s with
  | some rest => some (.v11, rest)
  | none => (after? (versionName .v10) s).map (.v10, ·)

/-- A version, three digits, and perhaps a reason, with single spaces between them. -/
def statusLine? (line : Bytes) : Option StatusLine := do
  let (version, rest) ← version? line
  let rest ← after? [' '] rest
  let digits := (rest.take 3).map fun b => Char.ofNat b.toNat
  let reason := rest.drop 3
  let status := Text.digitsValue 0 digits
  let isStatus := digits.length = 3 && digits.all Char.isDigit && 100 ≤ status
  let isReason := reason.head?.all (· == 0x20) && reason.all Header.isValueByte
  if isStatus && isReason then some ⟨version, status⟩ else none

/-- The head of a final response.  Interim responses may go before it; a switch of the
protocol is final. -/
def finalHead? : (fuel : Nat) → Bytes → Option (StatusLine × Headers × Bytes)
  | 0, _ => none
  | fuel + 1, s => do
    let (line, rest) ← takeLine? (skipEmptyLines s)
    let first ← statusLine? line
    let (headers, rest) ← (headers maxHeaders rest).toOption
    if first.status < 200 && first.status ≠ 101 then finalHead? fuel rest
    else some (first, headers, rest)

/-- Whether a response never has a body. -/
def isBodiless (method : String) (status : Nat) : Bool :=
  status < 200 || status = 204 || status = 304 || method == "HEAD" ||
    (method == "CONNECT" && status < 300)

/-- The body that follows a head. -/
def responseBody? (version : Version) (headers : Headers) (rest : Bytes) : Option Body :=
  match (headers.all "transfer-encoding").getLast? with
  | some coding =>
    if version = .v10 then none
    else if endsChunked coding then some (chunkedBody rest)
    else some ⟨[rest], false, true⟩
  | none =>
    if headers.has "content-length" then do
      let n ← headers.contentLength?
      if n > maxBodyLength then none else some ⟨[rest.take n], true, n ≤ rest.length⟩
    else some ⟨[rest], false, true⟩

/-- The response to a request of that method, when these are all bytes of a connection. -/
def readResponse? (method : String) (bytes : Bytes) : Option Response := do
  let (first, headers, rest) ← finalHead? (bytes.length + 1) bytes
  let body ←
    if isBodiless method first.status then some .empty
    else responseBody? first.version headers rest
  some ⟨first.status, first.version, headers, body⟩

end WakeRouter.Http.Wire
