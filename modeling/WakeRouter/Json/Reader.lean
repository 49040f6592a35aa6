import WakeRouter.Json.Value
import WakeRouter.Text.Number
import WakeRouter.Text.Utf8

/-!
# Reading JSON

`Json.read?` reads a whole text, given as bytes.  An ill-formed byte may stand inside a
string only, and the string has no text then.
-/

namespace WakeRouter.Json

namespace Reader

/-- The characters of a text, with `none` for every ill-formed piece. -/
abbrev Symbols := List (Option Char)

abbrev Scan (α : Type) := Symbols → Option (α × Symbols)

def isSpace (c : Option Char) : Bool :=
  c == some ' ' || c == some '\n' || c == some '\t' || c == some '\r'

def skipSpace (s : Symbols) : Symbols :=
  s.dropWhile isSpace

def shortEscape? : Char → Option Char
  | '"' => some '"'
  | '\\' => some '\\'
  | '/' => some '/'
  | 'b' => some '\x08'
  | 'f' => some '\x0c'
  | 'n' => some '\n'
  | 'r' => some '\r'
  | 't' => some '\t'
  | _ => none

/-- The number that hexadecimal digits give. -/
def hex? (digits : List (Option Char)) : Option Nat :=
  digits.foldlM (fun n c => do some (16 * n + (← Text.hexValue? (← c)))) 0

def isHigh (n : Nat) : Bool := 0xd800 ≤ n && n < 0xdc00

def isLow (n : Nat) : Bool := 0xdc00 ≤ n && n < 0xe000

def charOf? (n : Nat) : Option Char :=
  if isHigh n || isLow n then none else some (Char.ofNat n)

/-- The character of two code units of sixteen bits. -/
def joinUnits (high low : Nat) : Char :=
  Char.ofNat (0x10000 + (high - 0xd800) * 0x400 + (low - 0xdc00))

/-- A part of a string. -/
inductive Piece
  | symbol (c : Option Char)
  /-- A code unit of sixteen bits, as an escape gives it. -/
  | unit (n : Nat)

/-- A string, from behind its opening quote. -/
def scanString : Scan (List Piece)
  | [] => none
  | some '"' :: rest => some ([], rest)
  | some '\\' :: some 'u' :: a :: b :: c :: d :: s => do
    let n ← hex? [a, b, c, d]
    let (pieces, rest) ← scanString s
    some (.unit n :: pieces, rest)
  | some '\\' :: c :: s => do
    let x ← shortEscape? (← c)
    let (pieces, rest) ← scanString s
    some (.symbol (some x) :: pieces, rest)
  | c :: s =>
    if c != some '\\' && c.all (0x20 ≤ ·.toNat) then do
      let (pieces, rest) ← scanString s
      some (.symbol c :: pieces, rest)
    else none

/-- Two units that only together make a character are read together; one of them alone
is ill-formed. -/
def joinPieces : List Piece → Symbols
  | [] => []
  | .symbol c :: s => c :: joinPieces s
  | .unit high :: .unit low :: s =>
    if isHigh high && isLow low then some (joinUnits high low) :: joinPieces s
    else charOf? high :: joinPieces (.unit low :: s)
  | .unit n :: s => charOf? n :: joinPieces s

/-- The text of a string, unless some of it is ill-formed. -/
def textOf? (pieces : List Piece) : Option String :=
  ((joinPieces pieces).mapM id).map String.ofList

def isDigit (c : Option Char) : Bool :=
  c.any Char.isDigit

/-- One or more digits. -/
def scanDigits (s : Symbols) : Option (List Char × Symbols) :=
  let digits := s.takeWhile isDigit
  if digits.isEmpty then none else some (digits.filterMap id, s.dropWhile isDigit)

def scanWhole (s : Symbols) : Option (List Char × Symbols) :=
  match s with
  | some '0' :: rest => some (['0'], rest)
  | _ => scanDigits s

def scanFraction (s : Symbols) : Option (List Char × Symbols) :=
  match s with
  | some '.' :: rest => (scanDigits rest).map fun (ds, rest) => ('.' :: ds, rest)
  | _ => some ([], s)

def scanExponent (s : Symbols) : Option (List Char × Symbols) :=
  let signed := fun (e : Char) (r : Symbols) =>
    match r with
    | some '+' :: rest => (scanDigits rest).map fun (ds, rest) => (e :: '+' :: ds, rest)
    | some '-' :: rest => (scanDigits rest).map fun (ds, rest) => (e :: '-' :: ds, rest)
    | _ => (scanDigits r).map fun (ds, rest) => (e :: ds, rest)
  match s with
  | some 'e' :: rest => signed 'e' rest
  | some 'E' :: rest => signed 'E' rest
  | _ => some ([], s)

def scanNumber (s : Symbols) : Option (List Char × Symbols) := do
  let (sign, s) :=
    match s with
    | some '-' :: rest => (['-'], rest)
    | _ => ([], s)
  let (whole, s) ← scanWhole s
  let (fraction, s) ← scanFraction s
  let (exponent, s) ← scanExponent s
  some (sign ++ whole ++ fraction ++ exponent, s)

/-- The items of an array that has some, with commas between them. -/
def scanItems (item : Scan Value) : (fuel : Nat) → Scan (List Value)
  | 0, _ => none
  | fuel + 1, s => do
    let (value, rest) ← item s
    match skipSpace rest with
    | some ',' :: rest => do
      let (values, rest) ← scanItems item fuel (skipSpace rest)
      some (value :: values, rest)
    | some ']' :: rest => some ([value], rest)
    | _ => none

def scanField (item : Scan Value) : Scan (Option String × Value)
  | some '"' :: s => do
    let (name, rest) ← scanString s
    match skipSpace rest with
    | some ':' :: rest => do
      let (value, rest) ← item (skipSpace rest)
      some ((textOf? name, value), rest)
    | _ => none
  | _ => none

/-- The fields of an object that has some, with commas between them. -/
def scanFields (item : Scan Value) : (fuel : Nat) → Scan (List (Option String × Value))
  | 0, _ => none
  | fuel + 1, s => do
    let (field, rest) ← scanField item s
    match skipSpace rest with
    | some ',' :: rest => do
      let (fields, rest) ← scanFields item fuel (skipSpace rest)
      some (field :: fields, rest)
    | some '\x7d' :: rest => some ([field], rest)
    | _ => none

/-- A value with at most `depth` arrays and objects around its innermost part. -/
def scanValue : (depth : Nat) → Scan Value
  | depth, s =>
    match s with
    | some '"' :: s => (scanString s).map fun (text, rest) => (.string (textOf? text), rest)
    | some 'n' :: some 'u' :: some 'l' :: some 'l' :: rest => some (.null, rest)
    | some 't' :: some 'r' :: some 'u' :: some 'e' :: rest => some (.boolean true, rest)
    | some 'f' :: some 'a' :: some 'l' :: some 's' :: some 'e' :: rest =>
      some (.boolean false, rest)
    | some '[' :: s =>
      match depth with
      | 0 => none
      | depth + 1 =>
        match skipSpace s with
        | some ']' :: rest => some (.array [], rest)
        | s =>
          (scanItems (scanValue depth) s.length s).map fun (items, rest) => (.array items, rest)
    | some '\x7b' :: s =>
      match depth with
      | 0 => none
      | depth + 1 =>
        match skipSpace s with
        | some '\x7d' :: rest => some (.object [], rest)
        | s =>
          (scanFields (scanValue depth) s.length s).map fun (fields, rest) =>
            (.object fields, rest)
    | s => (scanNumber s).map fun (literal, rest) => (.number literal, rest)

end Reader

/-- The value that a whole text holds.  No text nests deeper than it is long. -/
def read? (bytes : Bytes) : Option Value :=
  let s := Reader.skipSpace (Text.decodeBytes bytes)
  match Reader.scanValue s.length s with
  | some (value, rest) => if (Reader.skipSpace rest).isEmpty then some value else none
  | none => none

end WakeRouter.Json
