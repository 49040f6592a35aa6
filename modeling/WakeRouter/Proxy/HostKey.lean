import WakeRouter.Text.Blank
import WakeRouter.Text.Split

/-!
# Routing keys

The key of a host is the host without its port.  A colon inside a bracketed address
belongs to the address.
-/

namespace WakeRouter

/-- The host without a port, unless nothing is left. -/
def hostKey? (host : List Char) : Option (List Char) :=
  let trimmed := Text.trim host
  let key :=
    match Text.splitLast ':' trimmed with
    | some (name, port) => if port.contains ']' then trimmed else name
    | none => trimmed
  if key.isEmpty then none else some key

end WakeRouter
