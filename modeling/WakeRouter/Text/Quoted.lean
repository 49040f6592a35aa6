import WakeRouter.Text.Number
import WakeRouter.Text.Shown

/-!
# Quoted texts

Messages show texts that came from outside in double quotes, with everything escaped
that would not show or would end the quotes early.
-/

namespace WakeRouter.Text

/-- One character inside double quotes. -/
def quoteChar (c : Char) : List Char :=
  match c with
  | '\x00' => ['\\', '0']
  | '\t' => ['\\', 't']
  | '\r' => ['\\', 'r']
  | '\n' => ['\\', 'n']
  | '"' => ['\\', '"']
  | '\\' => ['\\', '\\']
  | c =>
    if isShown c then [c]
    else ['\\', 'u', '{'] ++ writeHex c.toNat ++ ['}']

def quote (s : String) : String :=
  String.ofList ('"' :: s.toList.flatMap quoteChar ++ ['"'])

end WakeRouter.Text
