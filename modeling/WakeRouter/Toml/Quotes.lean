import WakeRouter.Text.Number

/-!
# Strings in documents

Four ways to write a string: in double quotes with escapes or in single quotes as it
stands, each on one line or, with three quotes, over several.  Every scan starts after
the opening quotes and gives the string and what follows the closing ones.
-/

namespace WakeRouter.Toml.Quotes

/-- Tabs and everything but controls may stand in a string as they are. -/
def isPlain (c : Char) : Bool :=
  c == '\t' || (0x20 ≤ c.toNat && c.toNat != 0x7f)

def shortEscape? : Char → Option Char
  | 'b' => some '\x08'
  | 't' => some '\t'
  | 'n' => some '\n'
  | 'f' => some '\x0c'
  | 'r' => some '\r'
  | '"' => some '"'
  | '\\' => some '\\'
  | _ => none

/-- The character with the code that hexadecimal digits give, if it is one. -/
def codePoint? (digits : List Char) : Option Char := do
  let n ← digits.foldlM (fun n c => (Text.hexValue? c).map (16 * n + ·)) 0
  if h : n.isValidChar then some (Char.ofNatAux n h) else none

/-- Double quotes on one line. -/
def scanBasic : List Char → Option (List Char × List Char)
  | [] => none
  | '"' :: rest => some ([], rest)
  | '\\' :: 'u' :: a :: b :: c :: d :: s => do
    let x ← codePoint? [a, b, c, d]
    let (text, rest) ← scanBasic s
    some (x :: text, rest)
  | '\\' :: 'U' :: a :: b :: c :: d :: e :: f :: g :: h :: s => do
    let x ← codePoint? [a, b, c, d, e, f, g, h]
    let (text, rest) ← scanBasic s
    some (x :: text, rest)
  | '\\' :: e :: s => do
    let x ← shortEscape? e
    let (text, rest) ← scanBasic s
    some (x :: text, rest)
  | c :: s =>
    if c != '\\' && isPlain c then do
      let (text, rest) ← scanBasic s
      some (c :: text, rest)
    else none

/-- Single quotes on one line. -/
def scanLiteral : List Char → Option (List Char × List Char)
  | [] => none
  | c :: s =>
    if c = '\x27' then some ([], s)
    else if isPlain c then do
      let (text, rest) ← scanLiteral s
      some (c :: text, rest)
    else none

/-- Where a scan over several lines stands. -/
inductive Place
  | content
  /-- After a backslash: only blanks may come before the end of the line. -/
  | lineEnd
  /-- After a backslash and the end of its line: blanks and line ends do not count. -/
  | margin
deriving DecidableEq

/-- Three double quotes.  Up to two more of them may stand before the closing ones. -/
def scanBasicLines : Place → List Char → Option (List Char × List Char)
  | _, [] => none
  | .lineEnd, '\n' :: s => scanBasicLines .margin s
  | .lineEnd, '\r' :: '\n' :: s => scanBasicLines .margin s
  | .lineEnd, c :: s => if c = ' ' ∨ c = '\t' then scanBasicLines .lineEnd s else none
  | place, '\n' :: s =>
    if place = .margin then scanBasicLines .margin s
    else do
      let (text, rest) ← scanBasicLines .content s
      some ('\n' :: text, rest)
  | place, '\r' :: '\n' :: s =>
    if place = .margin then scanBasicLines .margin s
    else do
      let (text, rest) ← scanBasicLines .content s
      some ('\n' :: text, rest)
  | _, '"' :: '"' :: '"' :: '"' :: '"' :: rest => some (['"', '"'], rest)
  | _, '"' :: '"' :: '"' :: '"' :: rest => some (['"'], rest)
  | _, '"' :: '"' :: '"' :: rest => some ([], rest)
  | _, '\\' :: 'u' :: a :: b :: c :: d :: s => do
    let x ← codePoint? [a, b, c, d]
    let (text, rest) ← scanBasicLines .content s
    some (x :: text, rest)
  | _, '\\' :: 'U' :: a :: b :: c :: d :: e :: f :: g :: h :: s => do
    let x ← codePoint? [a, b, c, d, e, f, g, h]
    let (text, rest) ← scanBasicLines .content s
    some (x :: text, rest)
  | _, '\\' :: e :: s =>
    match shortEscape? e with
    | some x => do
      let (text, rest) ← scanBasicLines .content s
      some (x :: text, rest)
    | none => scanBasicLines .lineEnd (e :: s)
  | place, c :: s =>
    if place = .margin ∧ (c = ' ' ∨ c = '\t') then scanBasicLines .margin s
    else if c != '\\' && isPlain c then do
      let (text, rest) ← scanBasicLines .content s
      some (c :: text, rest)
    else none

/-- Three single quotes.  Up to two more of them may stand before the closing ones. -/
def scanLiteralLines : List Char → Option (List Char × List Char)
  | [] => none
  | '\x27' :: '\x27' :: '\x27' :: '\x27' :: '\x27' :: rest => some (['\x27', '\x27'], rest)
  | '\x27' :: '\x27' :: '\x27' :: '\x27' :: rest => some (['\x27'], rest)
  | '\x27' :: '\x27' :: '\x27' :: rest => some ([], rest)
  | '\r' :: '\n' :: s => do
    let (text, rest) ← scanLiteralLines s
    some ('\n' :: text, rest)
  | c :: s =>
    if c = '\n' || isPlain c then do
      let (text, rest) ← scanLiteralLines s
      some (c :: text, rest)
    else none

/-- A line end right after three opening quotes does not belong to the string. -/
def dropLineEnd : List Char → List Char
  | '\n' :: s => s
  | '\r' :: '\n' :: s => s
  | s => s

/-- A string at the front of a text, in any of the four ways. -/
def scan : List Char → Option (List Char × List Char)
  | '"' :: '"' :: '"' :: s => scanBasicLines .content (dropLineEnd s)
  | '"' :: s => scanBasic s
  | '\x27' :: '\x27' :: '\x27' :: s => scanLiteralLines (dropLineEnd s)
  | '\x27' :: s => scanLiteral s
  | _ => none

/-- A string on one line, as keys are written. -/
def scanLine : List Char → Option (List Char × List Char)
  | '"' :: s => scanBasic s
  | '\x27' :: s => scanLiteral s
  | _ => none

end WakeRouter.Toml.Quotes
