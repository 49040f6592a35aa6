import WakeRouter.Json.Reader

/-!
# How JSON values are written

The grammar says of a text that it begins with a value and what is left behind the value.  Blanks
may stand between any two tokens, and objects and arrays go as deep as they like.  What the parts
of a string stand for is told from the characters to their code units, not back.
-/

namespace WakeRouter.Json

open Reader (Piece Symbols)

/-! ## Tokens -/

/-- Blanks, and what is left behind some of them. -/
inductive Gap : Symbols → Symbols → Prop
  | nothing {s : Symbols} : Gap s s
  | blank {c : Option Char} {s rest : Symbols} (hc : Reader.isSpace c) (hs : Gap s rest) :
      Gap (c :: s) rest

/-- The parts of a string and its closing quote.  Quotes, backslashes and controls do not stand
for themselves; an ill-formed byte does. -/
inductive SpellsString : Symbols → List Piece → Symbols → Prop
  | close {rest : Symbols} : SpellsString (some '"' :: rest) [] rest
  | literal {c : Option Char} {s rest : Symbols} {pieces : List Piece} (hquote : c ≠ some '"')
      (hescape : c ≠ some '\\') (hcontrol : ∀ x, c = some x → 0x20 ≤ x.toNat)
      (hs : SpellsString s pieces rest) : SpellsString (c :: s) (.symbol c :: pieces) rest
  | short {c x : Char} {s rest : Symbols} {pieces : List Piece}
      (hc : Reader.shortEscape? c = some x) (hs : SpellsString s pieces rest) :
      SpellsString (some '\\' :: some c :: s) (.symbol (some x) :: pieces) rest
  | unit {a b c d : Char} {w x y z : Nat} {s rest : Symbols} {pieces : List Piece}
      (ha : Text.hexValue? a = some w) (hb : Text.hexValue? b = some x)
      (hc : Text.hexValue? c = some y) (hd : Text.hexValue? d = some z)
      (hs : SpellsString s pieces rest) :
      SpellsString (some '\\' :: some 'u' :: some a :: some b :: some c :: some d :: s)
        (.unit (0x1000 * w + 0x100 * x + 0x10 * y + z) :: pieces) rest

/-- The first of the two code units of a character that has two. -/
def highUnit (c : Char) : Nat :=
  0xd800 + (c.toNat - 0x10000) / 0x400

def lowUnit (c : Char) : Nat :=
  0xdc00 + (c.toNat - 0x10000) % 0x400

/-- What the parts of a string stand for.  A character has one code unit or two; half of two that
stands alone is ill-formed. -/
inductive Denotes : List Piece → Symbols → Prop
  | nothing : Denotes [] []
  | symbol {c : Option Char} {pieces : List Piece} {s : Symbols} (hs : Denotes pieces s) :
      Denotes (.symbol c :: pieces) (c :: s)
  | single {c : Char} {pieces : List Piece} {s : Symbols} (hc : c.toNat < 0x10000)
      (hs : Denotes pieces s) : Denotes (.unit c.toNat :: pieces) (some c :: s)
  | pair {c : Char} {pieces : List Piece} {s : Symbols} (hc : 0x10000 ≤ c.toNat)
      (hs : Denotes pieces s) :
      Denotes (.unit (highUnit c) :: .unit (lowUnit c) :: pieces) (some c :: s)
  | half {n : Nat} {pieces : List Piece} {s : Symbols} (hn : 0xd800 ≤ n ∧ n < 0xe000)
      (halone : ∀ (c : Char) (rest : List Piece), 0x10000 ≤ c.toNat → n = highUnit c →
        pieces ≠ .unit (lowUnit c) :: rest)
      (hs : Denotes pieces s) : Denotes (.unit n :: pieces) (none :: s)

/-- The string has the text, or none because some of it is ill-formed. -/
def HasText (pieces : List Piece) (text? : Option String) : Prop :=
  ∃ symbols, Denotes pieces symbols ∧
    match text? with
    | some text => symbols = text.toList.map some
    | none => none ∈ symbols

structure IsDigits (digits : List Char) : Prop where
  ne_nil : digits ≠ []
  digit : ∀ c ∈ digits, c.isDigit

/-- Without leading zeros. -/
inductive IsWhole : List Char → Prop
  | zero : IsWhole ['0']
  | digits {digits : List Char} (hdigits : IsDigits digits) (hfirst : digits.head? ≠ some '0') :
      IsWhole digits

inductive IsFraction : List Char → Prop
  | nothing : IsFraction []
  | digits {digits : List Char} (hdigits : IsDigits digits) : IsFraction ('.' :: digits)

inductive IsExponent : List Char → Prop
  | nothing : IsExponent []
  | plain {e : Char} {digits : List Char} (he : e = 'e' ∨ e = 'E') (hdigits : IsDigits digits) :
      IsExponent (e :: digits)
  | signed {e sign : Char} {digits : List Char} (he : e = 'e' ∨ e = 'E')
      (hsign : sign = '+' ∨ sign = '-') (hdigits : IsDigits digits) :
      IsExponent (e :: sign :: digits)

inductive IsNumber : List Char → Prop
  | number {sign whole fraction exponent : List Char} (hsign : sign = [] ∨ sign = ['-'])
      (hwhole : IsWhole whole) (hfraction : IsFraction fraction) (hexponent : IsExponent exponent) :
      IsNumber (sign ++ whole ++ fraction ++ exponent)

/-! ## Values -/

mutual

/-- The text begins with the value. -/
inductive Spells : Symbols → Value → Symbols → Prop
  | null {rest : Symbols} :
      Spells (some 'n' :: some 'u' :: some 'l' :: some 'l' :: rest) .null rest
  | yes {rest : Symbols} :
      Spells (some 't' :: some 'r' :: some 'u' :: some 'e' :: rest) (.boolean true) rest
  | no {rest : Symbols} :
      Spells (some 'f' :: some 'a' :: some 'l' :: some 's' :: some 'e' :: rest) (.boolean false)
        rest
  | number {literal : List Char} {rest : Symbols} (hliteral : IsNumber literal) :
      Spells (literal.map some ++ rest) (.number literal) rest
  | string {s rest : Symbols} {pieces : List Piece} {text? : Option String}
      (hs : SpellsString s pieces rest) (htext : HasText pieces text?) :
      Spells (some '"' :: s) (.string text?) rest
  | emptyArray {s rest : Symbols} (hgap : Gap s (some ']' :: rest)) :
      Spells (some '[' :: s) (.array []) rest
  | array {s t rest : Symbols} {items : List Value} (hgap : Gap s t)
      (hitems : SpellsItems t items rest) : Spells (some '[' :: s) (.array items) rest
  | emptyObject {s rest : Symbols} (hgap : Gap s (some '\x7d' :: rest)) :
      Spells (some '\x7b' :: s) (.object []) rest
  | object {s t rest : Symbols} {fields : List (Option String × Value)} (hgap : Gap s t)
      (hfields : SpellsFields t fields rest) : Spells (some '\x7b' :: s) (.object fields) rest

/-- Values with commas between them, and the bracket that closes their array. -/
inductive SpellsItems : Symbols → List Value → Symbols → Prop
  | last {s t rest : Symbols} {value : Value} (hvalue : Spells s value t)
      (hclose : Gap t (some ']' :: rest)) : SpellsItems s [value] rest
  | more {s t u v rest : Symbols} {value : Value} {values : List Value}
      (hvalue : Spells s value t) (hcomma : Gap t (some ',' :: u)) (hgap : Gap u v)
      (hvalues : SpellsItems v values rest) : SpellsItems s (value :: values) rest

/-- A name, a colon and a value. -/
inductive SpellsField : Symbols → Option String × Value → Symbols → Prop
  | named {s t u v rest : Symbols} {pieces : List Piece} {name? : Option String} {value : Value}
      (hname : SpellsString s pieces t) (htext : HasText pieces name?)
      (hcolon : Gap t (some ':' :: u)) (hgap : Gap u v) (hvalue : Spells v value rest) :
      SpellsField (some '"' :: s) (name?, value) rest

/-- Fields with commas between them, and the bracket that closes their object. -/
inductive SpellsFields : Symbols → List (Option String × Value) → Symbols → Prop
  | last {s t rest : Symbols} {field : Option String × Value} (hfield : SpellsField s field t)
      (hclose : Gap t (some '\x7d' :: rest)) : SpellsFields s [field] rest
  | more {s t u v rest : Symbols} {field : Option String × Value}
      {fields : List (Option String × Value)} (hfield : SpellsField s field t)
      (hcomma : Gap t (some ',' :: u)) (hgap : Gap u v) (hfields : SpellsFields v fields rest) :
      SpellsFields s (field :: fields) rest

end

/-- The text is the value, with or without blanks around it. -/
def Holds (bytes : Bytes) (value : Value) : Prop :=
  ∃ s rest, Gap (Text.decodeBytes bytes) s ∧ Spells s value rest ∧ Gap rest []

/-! ## Lengths -/

theorem Gap.length_le {s rest : Symbols} (hs : Gap s rest) : rest.length ≤ s.length := by
  induction hs with
  | nothing => exact Nat.le_refl _
  | blank _ _ ih => exact Nat.le_succ_of_le ih

theorem Gap.length_lt {c : Option Char} {s rest : Symbols} (hs : Gap s (c :: rest)) :
    rest.length < s.length :=
  hs.length_le

theorem SpellsString.length_lt {s rest : Symbols} {pieces : List Piece}
    (hs : SpellsString s pieces rest) : rest.length < s.length := by
  induction hs with
  | close => simp
  | literal _ _ _ _ ih | short _ _ ih | unit _ _ _ _ _ ih =>
      simp only [List.length_cons]
      omega

theorem IsWhole.ne_nil {whole : List Char} (hwhole : IsWhole whole) : whole ≠ [] := by
  cases hwhole with
  | zero => simp
  | digits hdigits => exact hdigits.ne_nil

theorem IsNumber.ne_nil {literal : List Char} (hliteral : IsNumber literal) : literal ≠ [] := by
  cases hliteral with
  | number _ hwhole => simp [hwhole.ne_nil]

mutual

theorem Spells.length_lt {s rest : Symbols} {value : Value} (hs : Spells s value rest) :
    rest.length < s.length := by
  cases hs with
  | null | yes | no => simp only [List.length_cons]; omega
  | number hliteral =>
      have := List.length_pos_iff.mpr hliteral.ne_nil
      simp only [List.length_append, List.length_map]
      omega
  | string hs _ =>
      have := hs.length_lt
      simp only [List.length_cons]
      omega
  | emptyArray hgap | emptyObject hgap => exact Nat.lt_succ_of_lt hgap.length_lt
  | array hgap hrest =>
      have := hgap.length_le
      have := hrest.length_lt
      simp only [List.length_cons]
      omega
  | object hgap hrest =>
      have := hgap.length_le
      have := hrest.length_lt
      simp only [List.length_cons]
      omega

theorem SpellsItems.length_lt {s rest : Symbols} {items : List Value}
    (hs : SpellsItems s items rest) : rest.length < s.length := by
  cases hs with
  | last hvalue hclose =>
      have := hvalue.length_lt
      have := hclose.length_lt
      omega
  | more hvalue hcomma hgap hvalues =>
      have := hvalue.length_lt
      have := hcomma.length_lt
      have := hgap.length_le
      have := hvalues.length_lt
      omega

theorem SpellsField.length_lt {s rest : Symbols} {field : Option String × Value}
    (hs : SpellsField s field rest) : rest.length < s.length := by
  cases hs with
  | named hname _ hcolon hgap hvalue =>
      have := hname.length_lt
      have := hcolon.length_lt
      have := hgap.length_le
      have := hvalue.length_lt
      simp only [List.length_cons]
      omega

theorem SpellsFields.length_lt {s rest : Symbols} {fields : List (Option String × Value)}
    (hs : SpellsFields s fields rest) : rest.length < s.length := by
  cases hs with
  | last hfield hclose =>
      have := hfield.length_lt
      have := hclose.length_lt
      omega
  | more hfield hcomma hgap hfields =>
      have := hfield.length_lt
      have := hcomma.length_lt
      have := hgap.length_le
      have := hfields.length_lt
      omega

end

end WakeRouter.Json
