import WakeRouter.Text.Number
import WakeRouter.Text.Split

/-!
# Writing documents

Strings are written in the plainest of five styles that can hold them: double quotes
without escapes, single quotes, three double quotes without escapes, three single
quotes, and double quotes with escapes.
-/

namespace WakeRouter.Toml.Writer

/-- Controls that no style holds as they are; a tab or a line end is none of them. -/
def isControl (c : Char) : Bool :=
  (c.toNat < 0x20 && c != '\t' && c != '\n') || c.toNat == 0x7f

/-- One character within double quotes. -/
def escape (c : Char) : List Char :=
  match c with
  | '\x08' => ['\\', 'b']
  | '\t' => ['\\', 't']
  | '\n' => ['\\', 'n']
  | '\x0c' => ['\\', 'f']
  | '\r' => ['\\', 'r']
  | '\\' => ['\\', '\\']
  | c =>
    if isControl c then
      let digits := (Text.writeHex c.toNat).map Char.toUpper
      ['\\', 'u'] ++ List.replicate (4 - digits.length) '0' ++ digits
    else [c]

/-- A text within double quotes, of which `free` in a row may stand as they are; `run`
of them have just been written. -/
def escaped (free : Nat) (keepLines : Bool) : (run : Nat) → List Char → List Char
  | _, [] => []
  | run, c :: s =>
    if c = '"' then
      if run < free then '"' :: escaped free keepLines (run + 1) s
      else '\\' :: '"' :: escaped free keepLines 0 s
    else if c = '\n' ∧ keepLines then '\n' :: escaped free keepLines 0 s
    else escape c ++ escaped free keepLines 0 s

def singleBasic (s : List Char) : List Char :=
  '"' :: escaped 0 false 0 s ++ ['"']

def singleLiteral (s : List Char) : List Char :=
  '\x27' :: s ++ ['\x27']

/-- A text that has line ends begins on a line of its own. -/
def firstLine (s : List Char) : List Char :=
  if s.contains '\n' then ['\n'] else []

def multiBasic (s : List Char) : List Char :=
  ['"', '"', '"'] ++ firstLine s ++ escaped 2 true 0 s ++ ['"', '"', '"']

def multiLiteral (s : List Char) : List Char :=
  ['\x27', '\x27', '\x27'] ++ firstLine s ++ s ++ ['\x27', '\x27', '\x27']

def string (s : List Char) : List Char :=
  let control := s.any isControl
  let backslash := s.contains '\\'
  let lines := s.contains '\n'
  if !control && !backslash && !lines && !s.contains '"' then singleBasic s
  else if !control && !lines && !s.contains '\x27' then singleLiteral s
  else if !control && !backslash && !Text.occurs ['"', '"', '"'] s then multiBasic s
  else if !control && !Text.occurs ['\x27', '\x27', '\x27'] s then multiLiteral s
  else if lines then multiBasic s
  else singleBasic s

/-- A line that gives a key its value. -/
def pair (key : String) (value : List Char) : List Char :=
  key.toList ++ " = ".toList ++ value ++ ['\n']

/-- A header and the lines below it. -/
def table (name : String) (lines : List (List Char)) : List Char :=
  '[' :: name.toList ++ [']', '\n'] ++ lines.flatten

end WakeRouter.Toml.Writer
