import WakeRouter.Text.Number

/-!
# Writing JSON

Texts are written on one line without blanks.  Quotes, backslashes and controls are
escaped, everything else stands as it is.
-/

namespace WakeRouter.Json.Writer

def escape (c : Char) : List Char :=
  match c with
  | '"' => ['\\', '"']
  | '\\' => ['\\', '\\']
  | '\x08' => ['\\', 'b']
  | '\t' => ['\\', 't']
  | '\n' => ['\\', 'n']
  | '\x0c' => ['\\', 'f']
  | '\r' => ['\\', 'r']
  | c =>
    if c.toNat < 0x20 then
      let digits := Text.writeHex c.toNat
      ['\\', 'u'] ++ List.replicate (4 - digits.length) '0' ++ digits
    else [c]

def string (text : String) : List Char :=
  '"' :: text.toList.flatMap escape ++ ['"']

def array (items : List (List Char)) : List Char :=
  '[' :: List.intercalate [','] items ++ [']']

def object (fields : List (String × List Char)) : List Char :=
  '\x7b' :: List.intercalate [','] (fields.map fun f => string f.1 ++ ':' :: f.2) ++ ['\x7d']

end WakeRouter.Json.Writer
