/-!
# Trees of data

What a JSON text holds.  Numbers keep their spelling; objects keep all of their fields
in order, also several of one name.
-/

namespace WakeRouter.Json

inductive Value
  | null
  | boolean (b : Bool)
  | number (literal : List Char)
  /-- Without a text when its escapes or bytes do not form characters. -/
  | string (text? : Option String)
  | array (items : List Value)
  | object (fields : List (Option String × Value))

end WakeRouter.Json
