import WakeRouter.Http.Message
import WakeRouter.Net.Ip

/-!
# Requests on their way to a machine

A request keeps its method, its path and its body.  It loses the headers that are meant
for one connection only, keeps those of an upgrade that it asks for, and says where it
comes from.
-/

namespace WakeRouter

/-- Host and port of a machine; a bare IPv6 address is put into brackets. -/
def machineAuthority (address : List Char) (port : UInt16) : List Char :=
  let host :=
    if address.contains ':' && address.head? != some '[' then '[' :: address ++ [']']
    else address
  host ++ ':' :: Text.writeNumber port.toNat

namespace Http

namespace Headers

/-- Headers that concern one connection and are not passed on. -/
def hopByHop : List String :=
  ["connection", "proxy-authenticate", "proxy-authorization", "te", "trailer",
    "transfer-encoding", "upgrade"]

def stripHopByHop (headers : Headers) : Headers :=
  headers.filter fun h => !hopByHop.contains h.name

/-- The protocol that the headers ask to switch to. -/
def upgrade? (headers : Headers) : Option Header :=
  if headers.listsToken "connection" "upgrade" then headers.find? "upgrade" else none

def withUpgrade (headers : Headers) : Option Header → Headers
  | some protocol => (headers.set (.ofText "connection" "upgrade")).set protocol
  | none => headers

/-- Pass the host on under the name that proxies use. -/
def withForwardedHost (headers : Headers) : Headers :=
  match headers.find? "host" with
  | some host => headers.set { host with name := "x-forwarded-host" }
  | none => headers

/-- Add the client to the addresses that the request came by. -/
def withForwardedFor (client : Net.Ip) (headers : Headers) : Headers :=
  let address := client.text
  let route :=
    match (headers.find? "x-forwarded-for").bind Header.text? with
    | some prior => prior ++ ", ".toList ++ address
    | none => address
  headers.set (.ofText "x-forwarded-for" (String.ofList route))

def forwarded (headers : Headers) (client? : Option Net.Ip) : Headers :=
  let own := ((headers.stripHopByHop.withUpgrade headers.upgrade?).withForwardedHost).set
    (.ofText "x-forwarded-proto" "http")
  match client? with
  | some client => own.withForwardedFor client
  | none => own

end Headers

namespace Request

/-- The request as it goes to the machine at `authority`, if that can be an authority. -/
def forward? (r : Request) (authority : String) (client? : Option Net.Ip) : Option Request :=
  if Uri.isAuthority authority.toList then
    some { r with
      uri := ⟨some "http", some authority, some (r.uri.pathAndQuery?.getD "/")⟩
      headers := r.headers.forwarded client? }
  else none

end Request

end Http

end WakeRouter
