/-!
# Documents of keys and values

A TOML document is a table.  Tables keep their entries in the order in which they
appeared, and remember how they came to be, because that decides whether later lines
may still add to them.
-/

namespace WakeRouter.Toml

/-- How a table came to be. -/
inductive Origin
  /-- Written as a value in braces: complete. -/
  | inline
  /-- Opened by a header of its own. -/
  | header
  /-- Named only as a parent in a header. -/
  | implied
  /-- Named only as a parent in a dotted key. -/
  | dotted
deriving DecidableEq, Repr

inductive Value
  | string (text : String)
  | integer (n : Int)
  | float (literal : String)
  | boolean (b : Bool)
  | dateTime (literal : String)
  | array (items : List Value)
  /-- Tables opened by headers in double brackets; the last may still grow. -/
  | tables (items : List (List (String × Value)))
  | table (origin : Origin) (entries : List (String × Value))

abbrev Entries := List (String × Value)

namespace Entries

def find? (entries : Entries) (key : String) : Option Value :=
  List.lookup key entries

def erase (entries : Entries) (key : String) : Entries :=
  entries.filter fun e => e.1 != key

/-- Put a value in the place of the one that the key has; a new key goes to the end. -/
def put (entries : Entries) (key : String) (value : Value) : Entries :=
  if (entries.find? key).isSome then
    entries.map fun e => if e.1 = key then (key, value) else e
  else entries ++ [(key, value)]

/-- Add the value of a dotted key.  Parents that are missing are made; a table with a
header, an inline table or any other value is not added to.  `open_` tells whether a
value may be put right here, in the table where the path ends. -/
def addKey (open_ : Bool) (entries : Entries) (value : Value) : List String → Option Entries
  | [] => none
  | [key] =>
    if !open_ || (entries.find? key).isSome then none else some (entries ++ [(key, value)])
  | key :: path =>
    match entries.find? key with
    | none => do
      let inner ← addKey true [] value path
      some (entries.put key (.table .dotted inner))
    | some (.table .dotted inner) => do
      some (entries.put key (.table .dotted (← addKey true inner value path)))
    | some (.table .implied inner) => do
      some (entries.put key (.table .implied (← addKey false inner value path)))
    | some (.tables items) => do
      let last ← items.getLast?
      some (entries.put key (.tables (items.dropLast ++ [← addKey false last value path])))
    | some _ => none

/-- Add the lines of one table in order. -/
def addKeys (entries : Entries) (lines : List (List String × Value)) : Option Entries :=
  lines.foldlM (fun entries (path, value) => entries.addKey true value path) entries

/-- Open the table of a header and give it its lines.  A header opens a table once; it
may come after headers of tables inside it, and then the table moves to the end. -/
def addTable (entries : Entries) (lines : List (List String × Value)) :
    List String → Option Entries
  | [] => none
  | [key] =>
    match entries.find? key with
    | none => do some (entries ++ [(key, .table .header (← addKeys [] lines))])
    | some (.table .implied inner) => do
      some (entries.erase key ++ [(key, .table .header (← addKeys inner lines))])
    | some _ => none
  | key :: path =>
    match entries.find? key with
    | none => do some (entries ++ [(key, .table .implied (← addTable [] lines path))])
    | some (.table .inline _) => none
    | some (.table origin inner) => do
      some (entries.put key (.table origin (← addTable inner lines path)))
    | some (.tables items) => do
      let last ← items.getLast?
      some (entries.put key (.tables (items.dropLast ++ [← addTable last lines path])))
    | some _ => none

/-- Open one more table of an array of tables and give it its lines. -/
def addElement (entries : Entries) (lines : List (List String × Value)) :
    List String → Option Entries
  | [] => none
  | [key] =>
    match entries.find? key with
    | none => do some (entries ++ [(key, .tables [← addKeys [] lines])])
    | some (.tables items) => do
      some (entries.put key (.tables (items ++ [← addKeys [] lines])))
    | some _ => none
  | key :: path =>
    match entries.find? key with
    | none => do some (entries ++ [(key, .table .implied (← addElement [] lines path))])
    | some (.table .inline _) => none
    | some (.table origin inner) => do
      some (entries.put key (.table origin (← addElement inner lines path)))
    | some (.tables items) => do
      let last ← items.getLast?
      some (entries.put key (.tables (items.dropLast ++ [← addElement last lines path])))
    | some _ => none

end Entries

end WakeRouter.Toml
