import WakeRouter.Text.Number
import WakeRouter.Text.Split

/-!
# Network addresses

IPv4 addresses in four decimal octets and IPv6 addresses in eight hexadecimal groups.
A scan reads as much of a text as belongs to the address and gives the rest back;
`Ip.read?` wants the whole text.
-/

namespace WakeRouter.Net

structure Ipv4 where
  a : UInt8
  b : UInt8
  c : UInt8
  d : UInt8
deriving DecidableEq, Repr

structure Ipv6 where
  groups : List UInt16
  length_groups : groups.length = 8
deriving DecidableEq, Repr

inductive Ip
  | v4 (ip : Ipv4)
  | v6 (ip : Ipv6)
deriving DecidableEq, Repr

/-- What follows `c`, when the text starts with it. -/
def after? (c : Char) : List Char → Option (List Char)
  | [] => none
  | x :: s => if x = c then some s else none

def isHexDigit (c : Char) : Bool :=
  (Text.hexValue? c).isSome

/-- The digits at the front of a text as a number, and the rest. -/
def scanDecimal (s : List Char) : Option (List Char × Nat × List Char) :=
  let digits := s.takeWhile Char.isDigit
  if digits.isEmpty then none
  else some (digits, Text.digitsValue 0 digits, s.dropWhile Char.isDigit)

namespace Ipv4

/-- At most three digits below 256, none of them a zero in front of others. -/
def scanOctet (s : List Char) : Option (UInt8 × List Char) :=
  match scanDecimal s with
  | some (digits, n, rest) =>
    if digits.length ≤ 3 ∧ n < 256 ∧ (digits.head? = some '0' → digits.length = 1) then
      some (UInt8.ofNat n, rest)
    else none
  | none => none

def scan (s : List Char) : Option (Ipv4 × List Char) := do
  let (a, s) ← scanOctet s
  let (b, s) ← scanOctet (← after? '.' s)
  let (c, s) ← scanOctet (← after? '.' s)
  let (d, s) ← scanOctet (← after? '.' s)
  some (⟨a, b, c, d⟩, s)

def text (ip : Ipv4) : List Char :=
  Text.writeNumber ip.a.toNat ++ '.' :: Text.writeNumber ip.b.toNat ++
    '.' :: Text.writeNumber ip.c.toNat ++ '.' :: Text.writeNumber ip.d.toNat

/-- The octets in two groups of sixteen bits. -/
def toGroups (ip : Ipv4) : List UInt16 :=
  [ip.a.toUInt16 * 256 + ip.b.toUInt16, ip.c.toUInt16 * 256 + ip.d.toUInt16]

/-- The address that two groups of sixteen bits hold. -/
def ofGroups (high low : UInt16) : Ipv4 :=
  ⟨(high / 256).toUInt8, high.toUInt8, (low / 256).toUInt8, low.toUInt8⟩

end Ipv4

namespace Ipv6

/-- Up to four hexadecimal digits. -/
def scanGroup (s : List Char) : Option (UInt16 × List Char) :=
  let digits := s.takeWhile isHexDigit
  if digits.isEmpty || digits.length > 4 then none
  else
    let n := digits.foldl (fun n c => 16 * n + (Text.hexValue? c).getD 0) 0
    some (UInt16.ofNat n, s.dropWhile isHexDigit)

/-- At most `room` groups with colons between them, the last two of which may be
written as an IPv4 address; the flag tells whether they were. -/
def scanGroups : (room : Nat) → (first : Bool) → List Char → List UInt16 × Bool × List Char
  | 0, _, s => ([], false, s)
  | room + 1, first, s =>
    match (if first then some s else after? ':' s) with
    | none => ([], false, s)
    | some body =>
      match (if room = 0 then none else Ipv4.scan body) with
      | some (ip, rest) => (ip.toGroups, true, rest)
      | none =>
        match scanGroup body with
        | none => ([], false, s)
        | some (g, rest) =>
          let (gs, dotted, rest) := scanGroups room false rest
          (g :: gs, dotted, rest)

def ofList? (groups : List UInt16) : Option Ipv6 :=
  if h : groups.length = 8 then some ⟨groups, h⟩ else none

/-- Eight groups, or fewer with one `::` for the run of zeros left out. -/
def scan (s : List Char) : Option (Ipv6 × List Char) :=
  let (front, dotted, rest) := scanGroups 8 true s
  if front.length = 8 then (ofList? front).map (·, rest)
  else if dotted then none
  else
    match Text.dropPrefix? [':', ':'] rest with
    | none => none
    | some rest =>
      let (back, _, rest) := scanGroups (7 - front.length) true rest
      let gap := List.replicate (8 - front.length - back.length) 0
      (ofList? (front ++ gap ++ back)).map (·, rest)

/-- The first longest run of zeros: where it starts and how long it is. -/
def longestZeros (groups : List UInt16) : Nat × Nat :=
  let step := fun (index, start, length, best) (g : UInt16) =>
    if g = 0 then
      let start := if length = 0 then index else start
      let length := length + 1
      (index + 1, start, length, if length > best.2 then (start, length) else best)
    else (index + 1, 0, 0, best)
  (groups.foldl step (0, 0, 0, ((0, 0) : Nat × Nat))).2.2.2

def groupsText (groups : List UInt16) : List Char :=
  List.intercalate [':'] (groups.map fun g => Text.writeHex g.toNat)

/-- The shortest form: `::` stands for the longest run of two or more zeros, and an
IPv4 address mapped into IPv6 keeps its dots. -/
def text (ip : Ipv6) : List Char :=
  match ip.groups with
  | [0, 0, 0, 0, 0, 0xffff, high, low] =>
    "::ffff:".toList ++ (Ipv4.ofGroups high low).text
  | groups =>
    let (start, length) := longestZeros groups
    if length > 1 then
      groupsText (groups.take start) ++ [':', ':'] ++ groupsText (groups.drop (start + length))
    else groupsText groups

end Ipv6

namespace Ip

def read? (s : List Char) : Option Ip :=
  match Ipv4.scan s with
  | some (ip, []) => some (.v4 ip)
  | _ =>
    match Ipv6.scan s with
    | some (ip, []) => some (.v6 ip)
    | _ => none

def text : Ip → List Char
  | .v4 ip => ip.text
  | .v6 ip => ip.text

end Ip

end WakeRouter.Net
