import WakeRouter.Text.Number
import WakeRouter.Text.Split
import WakeRouter.Text.Utf8

/-!
# Request targets

A target is a path with a query, an asterisk, an address with scheme and authority, or
an authority alone.  What follows a `#` does not belong to it.
-/

namespace WakeRouter.Http

structure Uri where
  scheme? : Option String
  authority? : Option String
  /-- The path and the query; an authority alone has none. -/
  pathAndQuery? : Option String
deriving DecidableEq, Repr

inductive UriFault
  | character
  | tooLong
  | form
deriving DecidableEq, Repr

namespace UriFault

def message : UriFault → String
  | .character => "invalid uri character"
  | .tooLong => "uri too long"
  | .form => "invalid format"

end UriFault

namespace Uri

def isWide (c : Char) : Bool := 0x80 ≤ c.toNat

def isPathChar (c : Char) : Bool :=
  let n := c.toNat
  n = 0x21 || n = 0x22 || (0x24 ≤ n && n ≤ 0x3b) || n = 0x3d || (0x40 ≤ n && n ≤ 0x5f) ||
    (0x61 ≤ n && n ≤ 0x7e) || isWide c

def isQueryChar (c : Char) : Bool :=
  let n := c.toNat
  n = 0x21 || (0x24 ≤ n && n ≤ 0x3b) || n = 0x3d || (0x3f ≤ n && n ≤ 0x7e) || isWide c

/-- Letters, digits and the signs that an authority may hold anywhere. -/
def isAuthorityChar (c : Char) : Bool :=
  c.isAlphanum || "!$&\x27()*+,-.;=_~".toList.contains c

/-- Path and query, from behind the authority up to a `#`. -/
def readPath? (s : List Char) : Option (List Char) :=
  let s := s.takeWhile (· != '#')
  let path := s.takeWhile (· != '?')
  let query := s.dropWhile (· != '?')
  if path.all isPathChar && (query.drop 1).all isQueryChar then
    some (if path.isEmpty then '/' :: query else s)
  else none

/-- What the characters of an authority have come to. -/
structure AuthorityScan where
  /-- Since the last `@` or `]`. -/
  colons : Nat
  opened : Bool
  closed : Bool
  /-- Since the last `@` or `]`. -/
  percent : Bool
  /-- The last character was an `@`. -/
  afterAt : Bool

namespace AuthorityScan

def start : AuthorityScan := ⟨0, false, false, false, false⟩

def step (a : AuthorityScan) (c : Char) : Option AuthorityScan :=
  let a := { a with afterAt := false }
  match c with
  | ':' => if a.colons ≥ 8 then none else some { a with colons := a.colons + 1 }
  | '[' => if a.percent || a.opened then none else some { a with opened := true }
  | ']' =>
    if !a.opened || a.closed then none
    else some { a with closed := true, colons := 0, percent := false }
  | '@' => some { a with colons := 0, percent := false, afterAt := true }
  | '%' => some { a with percent := true }
  | c => if isAuthorityChar c then some a else none

def isComplete (a : AuthorityScan) : Bool :=
  a.opened == a.closed && a.colons ≤ 1 && !a.percent && !a.afterAt

end AuthorityScan

/-- One pair of brackets at most, and one colon at most outside user info and brackets. -/
def isAuthority (s : List Char) : Bool :=
  !s.isEmpty &&
    match s.foldlM AuthorityScan.step .start with
    | some a => a.isComplete
    | none => false

def endsAuthority (c : Char) : Bool :=
  c == '/' || c == '?' || c == '#'

/-- Letters, digits and the signs that a scheme may hold. -/
def isSchemeChar (c : Char) : Bool :=
  c.isAlphanum || "+-.~".toList.contains c

/-- What follows a scheme and its `://`. -/
def dropScheme? (s : List Char) : Option (List Char) :=
  let scheme := s.takeWhile isSchemeChar
  if scheme.length ≤ 64 then Text.dropPrefix? [':', '/', '/'] (s.dropWhile isSchemeChar) else none

/-- The longest target, in bytes. -/
def maxLength : Nat := 65534

def read (s : List Char) : Except UriFault Uri :=
  if (Text.toUtf8 s).length > maxLength then .error .tooLong
  else
    match s with
    | ['*'] => .ok ⟨none, none, some "*"⟩
    | '/' :: _ =>
      match readPath? s with
      | some path => .ok ⟨none, none, some (String.ofList path)⟩
      | none => .error .character
    | _ =>
      match dropScheme? s with
      | some rest =>
        let authority := rest.takeWhile (!endsAuthority ·)
        if !isAuthority authority then .error .form
        else
          match readPath? (rest.dropWhile (!endsAuthority ·)) with
          | some path =>
            .ok ⟨some (String.ofList (s.takeWhile isSchemeChar)),
              some (String.ofList authority), some (String.ofList path)⟩
          | none => .error .character
      | none => if isAuthority s then .ok ⟨none, some (String.ofList s), none⟩ else .error .form

/-- The host of an authority, without user info and port. -/
def hostOf (authority : List Char) : List Char :=
  let place :=
    match Text.splitLast '@' authority with
    | some (_, place) => place
    | none => authority
  match place with
  | '[' :: _ => place.takeWhile (· != ']') ++ [']']
  | _ => place.takeWhile (· != ':')

/-- The number after the last colon, when it is a port. -/
def portOf? (authority : List Char) : Option Nat := do
  let (_, port) ← Text.splitLast ':' authority
  Text.readNumber? (Nat.pow 2 16) port

/-- Host and port as a `Host` line names them; port 80 goes without saying. -/
def hostLine (authority : List Char) : List Char :=
  match portOf? authority with
  | some port =>
    if port = 80 then hostOf authority
    else hostOf authority ++ ':' :: Text.writeNumber port
  | none => hostOf authority

end Uri

end WakeRouter.Http
