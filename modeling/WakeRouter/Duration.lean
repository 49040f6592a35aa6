import WakeRouter.Text.Blank
import WakeRouter.Text.Number
import WakeRouter.Text.Split

/-!
# Spans of time

A duration is a number of nanoseconds.  People write durations as `500ms`, `30s`,
`5m` or `1h`; a bare number is read as seconds.  `Duration.read?` reads these, and
`Duration.write` writes a duration back in seconds, or in milliseconds when it has a
part below the second.
-/

namespace WakeRouter

structure Duration where
  nanos : Nat
deriving DecidableEq, Repr

namespace Duration

def ofMicros (n : Nat) : Duration := ⟨n * 1000⟩

def ofMillis (n : Nat) : Duration := ⟨n * 1000000⟩

def ofSeconds (n : Nat) : Duration := ⟨n * 1000000000⟩

def zero : Duration := ⟨0⟩

def isZero (d : Duration) : Bool := d.nanos == 0

def toMillis (d : Duration) : Nat := d.nanos / 1000000

def toSeconds (d : Duration) : Nat := d.nanos / 1000000000

/-- Whole milliseconds within the last second. -/
def subsecondMillis (d : Duration) : Nat := d.nanos % 1000000000 / 1000000

instance : LE Duration := ⟨fun a b => a.nanos ≤ b.nanos⟩

instance : LT Duration := ⟨fun a b => a.nanos < b.nanos⟩

instance (a b : Duration) : Decidable (a ≤ b) := inferInstanceAs (Decidable (a.nanos ≤ b.nanos))

instance (a b : Duration) : Decidable (a < b) := inferInstanceAs (Decidable (a.nanos < b.nanos))

/-- Numbers in durations, and the seconds they come to, stay below this bound. -/
def numberBound : Nat := Nat.pow 2 64

/-- `n` units of `secondsPerUnit` seconds, when the seconds stay in bounds. -/
def ofUnits? (secondsPerUnit n : Nat) : Option Duration :=
  if n * secondsPerUnit < numberBound then some (ofSeconds (n * secondsPerUnit)) else none

/-- The unit is the longest that the text ends in, so `ms` goes before `s`; blanks may
stand between the number and its unit. -/
def read? (text : List Char) : Option Duration :=
  let s := Text.trim text
  let number := fun r => Text.readNumber? numberBound (Text.trim r)
  match Text.dropSuffix? ['m', 's'] s with
  | some r => (number r).map ofMillis
  | none =>
    match Text.dropSuffix? ['s'] s with
    | some r => (number r).map ofSeconds
    | none =>
      match Text.dropSuffix? ['m'] s with
      | some r => (number r).bind (ofUnits? 60)
      | none =>
        match Text.dropSuffix? ['h'] s with
        | some r => (number r).bind (ofUnits? 3600)
        | none => (Text.readNumber? numberBound s).map ofSeconds

def write (d : Duration) : List Char :=
  if d.subsecondMillis ≠ 0 then Text.writeNumber d.toMillis ++ ['m', 's']
  else Text.writeNumber d.toSeconds ++ ['s']

/-- `whole` with the decimal fraction `part / 10 ^ places`, without trailing zeros. -/
def decimalText (whole part places : Nat) : List Char :=
  let digits := Text.writeNumber part
  let padded := List.replicate (places - digits.length) '0' ++ digits
  let shown := (padded.reverse.dropWhile (· == '0')).reverse
  Text.writeNumber whole ++ (if shown.isEmpty then [] else '.' :: shown)

/-- A duration in the largest unit of `s`, `ms`, `µs` and `ns` that it fills. -/
def display (d : Duration) : String :=
  let n := d.nanos
  String.ofList <|
    if 1000000000 ≤ n then decimalText (n / 1000000000) (n % 1000000000) 9 ++ ['s']
    else if 1000000 ≤ n then decimalText (n / 1000000) (n % 1000000) 6 ++ ['m', 's']
    else if 1000 ≤ n then decimalText (n / 1000) (n % 1000) 3 ++ ['µ', 's']
    else decimalText n 0 0 ++ ['n', 's']

end Duration

/-- A point in time: nanoseconds since the start of the run. -/
abbrev Instant := Nat

end WakeRouter
