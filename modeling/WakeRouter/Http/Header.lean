import WakeRouter.Text.Blank
import WakeRouter.Text.Split
import WakeRouter.Text.Utf8

/-!
# Header lines

Names are kept in lowercase.  A value is a list of bytes, and a text only when all of
them are visible ASCII, blanks or tabs.  Several lines may have one name; their order is
that of arrival.
-/

namespace WakeRouter.Http

structure Header where
  name : String
  value : Bytes
deriving DecidableEq, Repr

abbrev Headers := List Header

namespace Header

def isTokenChar (c : Char) : Bool :=
  c.isAlphanum || "!#$%&\x27*+-.^_\x60|~".toList.contains c

def isValueByte (b : UInt8) : Bool :=
  b == 9 || (0x20 ≤ b && b != 0x7f)

def isValidName (name : List Char) : Bool :=
  !name.isEmpty && name.all isTokenChar

/-- A header line, when name and value can be one. -/
def make? (name : String) (value : Bytes) : Option Header :=
  if isValidName name.toList && value.all isValueByte then
    some ⟨String.ofList (name.toList.map Char.toLower), value⟩
  else none

/-- The line of a name and a text that are known to be well-formed. -/
def ofText (name text : String) : Header :=
  ⟨name, Text.toUtf8 text.toList⟩

def isTextByte (b : UInt8) : Bool :=
  b == 9 || (0x20 ≤ b && b < 0x7f)

def asText? (value : Bytes) : Option (List Char) :=
  if value.all isTextByte then some (value.map fun b => Char.ofNat b.toNat) else none

def text? (h : Header) : Option (List Char) :=
  asText? h.value

def isPadding (b : UInt8) : Bool :=
  b == 9 || b == 0x20

/-- The value as it is read off a connection: without blanks and tabs around it. -/
def trimmed (h : Header) : Header :=
  let front := h.value.dropWhile isPadding
  { h with value := (front.reverse.dropWhile isPadding).reverse }

end Header

namespace Headers

def find? (headers : Headers) (name : String) : Option Header :=
  List.find? (fun h => h.name == name) headers

def all (headers : Headers) (name : String) : Headers :=
  headers.filter fun h => h.name == name

def has (headers : Headers) (name : String) : Bool :=
  headers.any fun h => h.name == name

def erase (headers : Headers) (name : String) : Headers :=
  headers.filter fun h => h.name != name

/-- Put one line in the place of all lines of its name. -/
def set (headers : Headers) (h : Header) : Headers :=
  headers.erase h.name ++ [h]

/-- Add a line unless there is one of its name. -/
def setDefault (headers : Headers) (h : Header) : Headers :=
  if headers.has h.name then headers else headers ++ [h]

/-- All lines but those of that name that have one before them. -/
def firstOnly (name : String) : Headers → Headers
  | [] => []
  | h :: hs => h :: if h.name == name then Headers.erase hs name else firstOnly name hs

/-- The lines of that name as one, with commas between their values. -/
def joined (headers : Headers) (name : String) : Headers :=
  match headers.all name with
  | [] => headers
  | lines =>
    headers.set ⟨name, List.intercalate (Text.toUtf8 ", ".toList) (lines.map Header.value)⟩

/-- Whether a line of that name lists the token, which is given in lowercase.  Tokens are
separated by commas and may have blanks around them; lines that are no texts do not count. -/
def listsToken (headers : Headers) (name token : String) : Bool :=
  (headers.all name).any fun h =>
    match h.text? with
    | some text =>
      (Text.pieces ',' text).any fun t => (Text.trim t).map Char.toLower == token.toList
    | none => false

end Headers

end WakeRouter.Http
