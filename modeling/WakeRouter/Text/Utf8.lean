/-!
# Text as bytes

UTF-8 read strictly or leniently.  Every ill-formed piece, as long as it could have been
the beginning of a character, counts as one: strict reading refuses the text, lenient
reading puts U+FFFD in its place.
-/

namespace WakeRouter

abbrev Bytes := List UInt8

namespace Text

/-- Bytes that go on a character. -/
def isContinuation (b : UInt8) : Bool :=
  0x80 ≤ b && b ≤ 0xbf

/-- Whether `b` may come second after the lead byte `a`. -/
def isSecond (a b : UInt8) : Bool :=
  if a = 0xe0 then 0xa0 ≤ b && b ≤ 0xbf
  else if a = 0xed then 0x80 ≤ b && b ≤ 0x9f
  else if a = 0xf0 then 0x90 ≤ b && b ≤ 0xbf
  else if a = 0xf4 then 0x80 ≤ b && b ≤ 0x8f
  else isContinuation b

def join (bits : Nat) (b : UInt8) : Nat :=
  bits * 64 + b.toNat % 64

/-- The characters of a text, with `none` for every ill-formed piece. -/
def decodeBytes : Bytes → List (Option Char)
  | [] => []
  | a :: s =>
    if a < 0x80 then some (Char.ofNat a.toNat) :: decodeBytes s
    else if a < 0xc2 || 0xf4 < a then none :: decodeBytes s
    else
      match s with
      | [] => [none]
      | b :: s₂ =>
        if !isSecond a b then none :: decodeBytes (b :: s₂)
        else if a < 0xe0 then some (Char.ofNat (join (a.toNat % 32) b)) :: decodeBytes s₂
        else
          match s₂ with
          | [] => [none]
          | c :: s₃ =>
            if !isContinuation c then none :: decodeBytes (c :: s₃)
            else if a < 0xf0 then
              some (Char.ofNat (join (join (a.toNat % 16) b) c)) :: decodeBytes s₃
            else
              match s₃ with
              | [] => [none]
              | d :: s₄ =>
                if !isContinuation d then none :: decodeBytes (d :: s₄)
                else some (Char.ofNat (join (join (join (a.toNat % 8) b) c) d)) :: decodeBytes s₄

def ofUtf8? (bytes : Bytes) : Option (List Char) :=
  (decodeBytes bytes).mapM id

def ofUtf8Lossy (bytes : Bytes) : List Char :=
  (decodeBytes bytes).map (·.getD '\ufffd')

def toUtf8 (s : List Char) : Bytes :=
  s.flatMap String.utf8EncodeChar

/-- An ASCII text is written with one byte for each character. -/
theorem toUtf8_of_ascii {s : List Char} (hascii : ∀ c ∈ s, c.toNat < 0x80) :
    toUtf8 s = s.map fun c => UInt8.ofNat c.toNat := by
  induction s with
  | nil => rfl
  | cons c s ih =>
      have hc : c.val.toNat ≤ 127 := Nat.le_of_lt_succ (hascii c List.mem_cons_self)
      have hs := ih fun x hx => hascii x (List.mem_cons_of_mem c hx)
      have hcons : toUtf8 (c :: s) = String.utf8EncodeChar c ++ toUtf8 s := List.flatMap_cons
      have hone : String.utf8EncodeChar c = [UInt8.ofNat c.toNat] := if_pos hc
      rw [hcons, hone, hs]
      rfl

end Text

end WakeRouter
