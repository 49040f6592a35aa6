import WakeRouter.Text.Number
import WakeRouter.Text.Split
import WakeRouter.Toml.Value

/-!
# Numbers, dates and words in documents

A bare value is one word: letters, digits and the signs that numbers and dates are
written with.  `Scalar.read?` gives the value of such a word.
-/

namespace WakeRouter.Toml.Scalar

def isWordChar (c : Char) : Bool :=
  c.isAlphanum || c == '+' || c == '-' || c == '.' || c == '_' || c == ':'

/-- The digits of a number whose underscores all stand between two digits. -/
def digits? (isDigit : Char → Bool) (s : List Char) : Option (List Char) :=
  let groups := Text.pieces '_' s
  if groups.all fun g => !g.isEmpty && g.all isDigit then some groups.flatten else none

def splitSign (s : List Char) : Bool × List Char :=
  match s with
  | '-' :: r => (true, r)
  | '+' :: r => (false, r)
  | _ => (false, s)

/-- Decimal digits without a zero in front of others. -/
def plainDigits? (s : List Char) : Option (List Char) := do
  let ds ← digits? Char.isDigit s
  if ds.length > 1 ∧ ds.head? = some '0' then none else some ds

def inRange (n : Int) : Bool :=
  -Int.pow 2 63 ≤ n && n < Int.pow 2 63

def ranged (n : Int) : Option Value :=
  if inRange n then some (.integer n) else none

/-- A number in base sixteen, eight or two, without a sign. -/
def based? (base : Nat) (s : List Char) : Option Value := do
  let isDigit := fun c =>
    match Text.hexValue? c with
    | some d => d < base
    | none => false
  let ds ← digits? isDigit s
  ranged (ds.foldl (fun n c => base * n + (Text.hexValue? c).getD 0) 0 : Nat)

def decimal? (s : List Char) : Option Value := do
  let (negative, r) := splitSign s
  let n := Text.digitsValue 0 (← plainDigits? r)
  ranged (if negative then -(n : Int) else n)

def integer? : List Char → Option Value
  | '0' :: 'x' :: r => based? 16 r
  | '0' :: 'o' :: r => based? 8 r
  | '0' :: 'b' :: r => based? 2 r
  | s => decimal? s

/-- Whether `digits · 10 ^ exponent` rounds to a finite double. -/
def isFinite (digits : List Char) (exponent : Int) : Bool :=
  let n := Text.digitsValue 0 digits
  let limit := Nat.pow 2 1024 - Nat.pow 2 970
  let length : Int := (Text.writeNumber n).length
  if n = 0 || length + exponent < 300 then true
  else if length + exponent > 320 then false
  else if 0 ≤ exponent then n * Nat.pow 10 exponent.toNat < limit
  else n < limit * Nat.pow 10 (-exponent).toNat

/-- A number with a fraction, an exponent or both; an infinite one is refused unless it
is negative. -/
def float? (s : List Char) : Option Value := do
  let literal := Value.float (String.ofList s)
  let (negative, r) := splitSign s
  if r = "inf".toList || r = "nan".toList then return literal
  let isMark := fun c => c == 'e' || c == 'E'
  let number := r.takeWhile fun c => !isMark c
  let exponent ←
    match r.dropWhile fun c => !isMark c with
    | [] => some none
    | _ :: e => do
      let (negative, ds) := splitSign e
      let n := Text.digitsValue 0 (← digits? Char.isDigit ds)
      some (some (if negative then -(n : Int) else n))
  let whole := number.takeWhile (· != '.')
  let wholeDigits ← plainDigits? whole
  let fraction ←
    match number.dropWhile (· != '.') with
    | [] => some none
    | _ :: f => (digits? Char.isDigit f).map some
  if exponent.isNone && fraction.isNone then none
  else
    let fractionDigits := fraction.getD []
    let scale : Int := exponent.getD 0 - fractionDigits.length
    if negative || isFinite (wholeDigits ++ fractionDigits) scale then some literal else none

/-- `n` decimal digits at the front of a text. -/
def fixed? (n : Nat) (s : List Char) : Option (Nat × List Char) :=
  let ds := s.take n
  if ds.length = n ∧ ds.all Char.isDigit then some (Text.digitsValue 0 ds, s.drop n) else none

def daysIn (year month : Nat) : Nat :=
  if month = 2 then
    if year % 4 = 0 ∧ (year % 100 ≠ 0 ∨ year % 400 = 0) then 29 else 28
  else if month = 4 ∨ month = 6 ∨ month = 9 ∨ month = 11 then 30
  else 31

/-- A date `yyyy-mm-dd` at the front of a text, and the rest. -/
def date? (s : List Char) : Option (List Char) := do
  let (year, s) ← fixed? 4 s
  let (month, s) ← fixed? 2 (← Text.dropPrefix? ['-'] s)
  let (day, s) ← fixed? 2 (← Text.dropPrefix? ['-'] s)
  if 1 ≤ month ∧ month ≤ 12 ∧ 1 ≤ day ∧ day ≤ daysIn year month then some s else none

/-- `hh:mm` at the front of a text, and the rest. -/
def hourMinute? (s : List Char) : Option (List Char) := do
  let (hour, s) ← fixed? 2 s
  let (minute, s) ← fixed? 2 (← Text.dropPrefix? [':'] s)
  if hour < 24 ∧ minute < 60 then some s else none

/-- A time of day at the front of a text, and the rest. -/
def time? (s : List Char) : Option (List Char) := do
  let (second, s) ← fixed? 2 (← Text.dropPrefix? [':'] (← hourMinute? s))
  if second > 60 then none
  else
    match s with
    | '.' :: r => if (r.takeWhile Char.isDigit).isEmpty then none else some (r.dropWhile Char.isDigit)
    | _ => some s

/-- The rest of a word after a time is empty or tells how far the time is from UTC. -/
def isOffset : List Char → Bool
  | [] => true
  | ['Z'] => true
  | ['z'] => true
  | c :: s => (c == '+' || c == '-') && hourMinute? s == some []

def isTimeOfDay (s : List Char) : Bool :=
  match time? s with
  | some rest => isOffset rest
  | none => false

/-- A date, a time, or both in one word. -/
def dateTime? (s : List Char) : Option Value :=
  let literal := Value.dateTime (String.ofList s)
  match date? s with
  | some [] => some literal
  | some (c :: rest) => if (c == 'T' || c == 't') && isTimeOfDay rest then some literal else none
  | none => if time? s == some [] then some literal else none

def read? (s : List Char) : Option Value :=
  if s = "true".toList then some (.boolean true)
  else if s = "false".toList then some (.boolean false)
  else dateTime? s <|> integer? s <|> float? s

/-- A bare value at the front of a text, and the rest.  A single blank may stand between
a date and its time. -/
def scan (s : List Char) : Option (Value × List Char) :=
  let word := s.takeWhile isWordChar
  let rest := s.dropWhile isWordChar
  let single := do some (← read? word, rest)
  match rest with
  | ' ' :: r =>
    let second := r.takeWhile isWordChar
    if date? word == some [] && !second.isEmpty then
      if isTimeOfDay second then
        some (.dateTime (String.ofList (word ++ ' ' :: second)), r.dropWhile isWordChar)
      else none
    else single
  | _ => single

end WakeRouter.Toml.Scalar
