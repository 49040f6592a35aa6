import WakeRouter.Toml.Quotes
import WakeRouter.Toml.Scalar

/-!
# Reading documents

`Toml.read?` reads a whole text as a document.  Scans take the front of a text and give
the rest back.  Values nest at most 79 deep and keys have fewer than 80 parts.
-/

namespace WakeRouter.Toml

namespace Reader

def isGap (c : Char) : Bool :=
  c == ' ' || c == '\t'

def skipGap (s : List Char) : List Char :=
  s.dropWhile isGap

def skipComment : List Char → List Char
  | '#' :: s => s.dropWhile Quotes.isPlain
  | s => s

/-- Past the end of a line on which nothing but a comment is left. -/
def endLine? (s : List Char) : Option (List Char) :=
  match skipComment (skipGap s) with
  | [] => some []
  | '\n' :: rest => some rest
  | '\r' :: '\n' :: rest => some rest
  | _ => none

/-- Past blanks, line ends and comments, as they stand between the items of an array. -/
def skipSpace : (inComment : Bool) → List Char → List Char
  | _, [] => []
  | _, '\n' :: s => skipSpace false s
  | _, '\r' :: '\n' :: s => skipSpace false s
  | true, c :: s => if Quotes.isPlain c then skipSpace true s else c :: s
  | false, '#' :: s => skipSpace true s
  | false, c :: s => if isGap c then skipSpace false s else c :: s

def isKeyChar (c : Char) : Bool :=
  c.isAlphanum || c == '-' || c == '_'

/-- One part of a key: a quoted string or a bare word. -/
def scanKeyPart (s : List Char) : Option (String × List Char) :=
  match s with
  | '"' :: _ | '\x27' :: _ =>
    (Quotes.scanLine s).map fun (text, rest) => (String.ofList text, rest)
  | _ =>
    let word := s.takeWhile isKeyChar
    if word.isEmpty then none else some (String.ofList word, s.dropWhile isKeyChar)

/-- Parts with dots between them, and blanks around each part. -/
def scanKeyParts : (fuel : Nat) → List Char → Option (List String × List Char)
  | 0, _ => none
  | fuel + 1, s => do
    let (part, rest) ← scanKeyPart (skipGap s)
    match skipGap rest with
    | '.' :: rest => do
      let (parts, rest) ← scanKeyParts fuel rest
      some (part :: parts, rest)
    | rest => some ([part], rest)

def scanKey (s : List Char) : Option (List String × List Char) :=
  scanKeyParts 79 s

/-- What can be scanned from the front of a text. -/
abbrev Scan (α : Type) := List Char → Option (α × List Char)

/-- The items of an array, from behind its opening bracket. -/
def scanItems (item : Scan Value) : (fuel : Nat) → Scan (List Value)
  | 0, _ => none
  | fuel + 1, s =>
    match skipSpace false s with
    | ']' :: rest => some ([], rest)
    | s => do
      let (value, rest) ← item s
      match skipSpace false rest with
      | ',' :: rest => do
        let (values, rest) ← scanItems item fuel rest
        some (value :: values, rest)
      | ']' :: rest => some ([value], rest)
      | _ => none

/-- A key, an equals sign and a value. -/
def scanPair (item : Scan Value) : Scan (List String × Value) := fun s => do
  let (key, rest) ← scanKey s
  let rest ← Text.dropPrefix? ['='] rest
  let (value, rest) ← item (skipGap rest)
  some ((key, value), rest)

/-- The pairs of an inline table, from behind its opening brace or a comma. -/
def scanPairs (item : Scan Value) : (fuel : Nat) → Scan (List (List String × Value))
  | 0, _ => none
  | fuel + 1, s => do
    let (pair, rest) ← scanPair item s
    match skipGap rest with
    | ',' :: rest => do
      let (pairs, rest) ← scanPairs item fuel rest
      some (pair :: pairs, rest)
    | '\x7d' :: rest => some ([pair], rest)
    | _ => none

def scanInline (item : Scan Value) : Scan Value := fun s =>
  match skipGap s with
  | '\x7d' :: rest => some (.table .inline [], rest)
  | s => do
    let (pairs, rest) ← scanPairs item s.length s
    some (.table .inline (← Entries.addKeys [] pairs), rest)

/-- A value with at most `depth` arrays and inline tables around its innermost part. -/
def scanValue : (depth : Nat) → Scan Value
  | _, s@('"' :: _) | _, s@('\x27' :: _) =>
    (Quotes.scan s).map fun (text, rest) => (.string (String.ofList text), rest)
  | 0, s => Scalar.scan s
  | depth + 1, '[' :: s =>
    (scanItems (scanValue depth) (s.length + 1) s).map fun (values, rest) => (.array values, rest)
  | depth + 1, '\x7b' :: s => scanInline (scanValue depth) s
  | _ + 1, s => Scalar.scan s

/-- The lines of a document that say something. -/
inductive Line
  | table (path : List String)
  | element (path : List String)
  | pair (key : List String) (value : Value)

def scanLine (s : List Char) : Option (Line × List Char) :=
  match s with
  | '[' :: '[' :: s => do
    let (path, rest) ← scanKey s
    some (.element path, ← endLine? (← Text.dropPrefix? [']', ']'] rest))
  | '[' :: s => do
    let (path, rest) ← scanKey s
    some (.table path, ← endLine? (← Text.dropPrefix? [']'] rest))
  | s => do
    let ((key, value), rest) ← scanPair (scanValue 79) s
    some (.pair key value, ← endLine? rest)

def scanLines : (fuel : Nat) → List Char → Option (List Line)
  | 0, _ => none
  | fuel + 1, s =>
    match skipGap s with
    | [] => some []
    | '\n' :: rest => scanLines fuel rest
    | '\r' :: '\n' :: rest => scanLines fuel rest
    | '#' :: rest => do scanLines fuel (← endLine? ('#' :: rest))
    | s => do
      let (line, rest) ← scanLine s
      some (line :: (← scanLines fuel rest))

/-- A header and the pairs below it. -/
abbrev Section := Line × List (List String × Value)

/-- Pairs belong to the header above them; those above all headers belong to the
document itself. -/
def sections : (lines : List Line) → List (List String × Value) × List Section
  | [] => ([], [])
  | .pair key value :: lines =>
    let (pairs, rest) := sections lines
    ((key, value) :: pairs, rest)
  | header :: lines =>
    let (pairs, rest) := sections lines
    ([], (header, pairs) :: rest)

def addSection (entries : Entries) : (part : Section) → Option Entries
  | (.table path, pairs) => entries.addTable pairs path
  | (.element path, pairs) => entries.addElement pairs path
  | (.pair .., _) => some entries

def build? (lines : List Line) : Option Entries := do
  let (pairs, parts) := sections lines
  parts.foldlM addSection (← Entries.addKeys [] pairs)

end Reader

/-- The entries of a document.  A byte order mark in front of it does not count. -/
def read? (text : String) : Option Entries := do
  let s :=
    match text.toList with
    | '\ufeff' :: s => s
    | s => s
  Reader.build? (← Reader.scanLines (s.length + 1) s)

end WakeRouter.Toml
