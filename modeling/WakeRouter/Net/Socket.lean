import WakeRouter.Net.Ip

/-!
# Addresses to listen on

A network address with a port, written `1.2.3.4:80` or `[::1]:80`.  An IPv6 address may
name a scope by its number.
-/

namespace WakeRouter.Net

inductive SocketAddress
  | v4 (ip : Ipv4) (port : UInt16)
  | v6 (ip : Ipv6) (scope : UInt32) (port : UInt16)
deriving DecidableEq, Repr

namespace SocketAddress

/-- Digits below `bound`; zeros in front are allowed. -/
def scanBounded (bound : Nat) (s : List Char) : Option (Nat × List Char) :=
  match scanDecimal s with
  | some (_, n, rest) => if n < bound then some (n, rest) else none
  | none => none

def scanPort (s : List Char) : Option (UInt16 × List Char) := do
  let (n, rest) ← scanBounded (Nat.pow 2 16) (← after? ':' s)
  some (UInt16.ofNat n, rest)

def scanV4 (s : List Char) : Option (SocketAddress × List Char) := do
  let (ip, s) ← Ipv4.scan s
  let (port, s) ← scanPort s
  some (.v4 ip port, s)

/-- The scope after a `%`; without one it is zero. -/
def scanScope (s : List Char) : UInt32 × List Char :=
  match after? '%' s >>= scanBounded (Nat.pow 2 32) with
  | some (n, rest) => (UInt32.ofNat n, rest)
  | none => (0, s)

def scanV6 (s : List Char) : Option (SocketAddress × List Char) := do
  let (ip, s) ← Ipv6.scan (← after? '[' s)
  let (scope, s) := scanScope s
  let (port, s) ← scanPort (← after? ']' s)
  some (.v6 ip scope port, s)

def read? (s : List Char) : Option SocketAddress :=
  match scanV4 s <|> scanV6 s with
  | some (address, []) => some address
  | _ => none

def text : SocketAddress → List Char
  | .v4 ip port => ip.text ++ ':' :: Text.writeNumber port.toNat
  | .v6 ip scope port =>
    '[' :: ip.text ++ (if scope = 0 then [] else '%' :: Text.writeNumber scope.toNat) ++
      ']' :: ':' :: Text.writeNumber port.toNat

def toText (address : SocketAddress) : String :=
  String.ofList address.text

def ip : SocketAddress → Ip
  | .v4 ip _ => .v4 ip
  | .v6 ip _ _ => .v6 ip

end SocketAddress

end WakeRouter.Net
