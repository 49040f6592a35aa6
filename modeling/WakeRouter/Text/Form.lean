import WakeRouter.Text.Number
import WakeRouter.Text.Split
import WakeRouter.Text.Utf8

/-!
# Form data in queries

A query is a list of fields, separated by `&`, each with a name, an `=` and a value.  In
both, `+` stands for a blank and `%` with two hexadecimal digits for a byte; an escape of
another form stands for itself.
-/

namespace WakeRouter.Text

def plus : UInt8 := 0x2b

def percent : UInt8 := 0x25

/-- The byte of two hexadecimal digits. -/
def escapedByte? (high low : UInt8) : Option UInt8 := do
  let high ← hexValue? (Char.ofNat high.toNat)
  let low ← hexValue? (Char.ofNat low.toNat)
  some (UInt8.ofNat (16 * high + low))

def unescapeForm : Bytes → Bytes
  | [] => []
  | b :: high :: low :: s =>
    if b = percent then
      match escapedByte? high low with
      | some byte => byte :: unescapeForm s
      | none => b :: unescapeForm (high :: low :: s)
    else (if b = plus then 0x20 else b) :: unescapeForm (high :: low :: s)
  | b :: s => (if b = plus then 0x20 else b) :: unescapeForm s

/-- The text of a name or a value. -/
def readFormText (s : List Char) : List Char :=
  ofUtf8Lossy (unescapeForm (toUtf8 s))

/-- Name and value of each field; a field without `=` has an empty value. -/
def readForm (query : List Char) : List (List Char × List Char) :=
  ((pieces '&' query).filter fun field => !field.isEmpty).map fun field =>
    (readFormText (field.takeWhile (· != '=')),
      readFormText ((field.dropWhile (· != '=')).drop 1))

end WakeRouter.Text
