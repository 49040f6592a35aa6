/-!
# Whole numbers as text

Decimal digits read and written.  A number may carry one leading plus sign and any
number of leading zeros, and is refused when it does not fit below the given bound.
-/

namespace WakeRouter.Text

def digitValue (c : Char) : Nat :=
  c.toNat - '0'.toNat

/-- The value of a text of decimal digits, going on from `acc`. -/
def digitsValue (acc : Nat) (s : List Char) : Nat :=
  s.foldl (fun n c => 10 * n + digitValue c) acc

/-- A number below `bound`: an optional `+`, then one or more ASCII digits. -/
def readNumber? (bound : Nat) (s : List Char) : Option Nat :=
  let digits :=
    match s with
    | '+' :: r => r
    | _ => s
  if digits.isEmpty || !digits.all Char.isDigit then none
  else
    let n := digitsValue 0 digits
    if n < bound then some n else none

/-- The decimal digits of a number, without leading zeros. -/
def writeNumber (n : Nat) : List Char :=
  Nat.toDigits 10 n

/-- The value of a hexadecimal digit of either case. -/
def hexValue? (c : Char) : Option Nat :=
  let n := c.toNat
  if '0'.toNat ≤ n ∧ n ≤ '9'.toNat then some (n - '0'.toNat)
  else if 'a'.toNat ≤ n ∧ n ≤ 'f'.toNat then some (n - 'a'.toNat + 10)
  else if 'A'.toNat ≤ n ∧ n ≤ 'F'.toNat then some (n - 'A'.toNat + 10)
  else none

/-- Lowercase hexadecimal digits, without leading zeros. -/
def writeHex (n : Nat) : List Char :=
  Nat.toDigits 16 n

end WakeRouter.Text
