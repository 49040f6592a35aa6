import WakeRouter.Net.Ip

/-!
# Names that a certificate can be checked against

A server name is a network address or a name of the domain system.
-/

namespace WakeRouter.Net

namespace ServerName

def isLabelChar (c : Char) : Bool :=
  c.isAlphanum || c == '-' || c == '_'

/-- One to 63 characters, with no hyphen at either end. -/
def isLabel (label : List Char) : Bool :=
  !label.isEmpty && label.length ≤ 63 && label.all isLabelChar &&
    label.head? != some '-' && label.getLast? != some '-'

/-- Labels with dots between them and at most one dot at the end; the last label must
not be a number, and the whole must not pass 253 characters. -/
def isDomain (name : List Char) : Bool :=
  let labels := Text.pieces '.' name
  let labels :=
    match labels.getLast? with
    | some [] => if labels.length > 1 then labels.dropLast else labels
    | _ => labels
  name.length ≤ 253 && labels.all isLabel &&
    match labels.getLast? with
    | some last => !last.all Char.isDigit
    | none => false

def isValid (name : List Char) : Bool :=
  (Ip.read? name).isSome || isDomain name

end ServerName

end WakeRouter.Net
