import WakeRouter.Proofs.Text.Number
import WakeRouter.Toml.Scalar

/-!
# Integers read back

A bare word of digits is read as the number they write: it lacks what a date, a time or
a fraction would need, and it has no zero in front of other digits.
-/

namespace WakeRouter.Toml.Scalar

open Text (Stops takeWhile_append_of_stops dropWhile_append_of_stops)

variable {digits s rest : List Char}

theorem isWordChar_of_isDigit {c : Char} (hc : c.isDigit) : isWordChar c := by
  simp [isWordChar, Char.isAlphanum, hc]

theorem digits?_of_all (hdigits : ∀ c ∈ digits, c.isDigit) (hne : digits ≠ []) :
    digits? Char.isDigit digits = some digits := by
  have hunderscore : '_' ∉ digits := fun h => by
    have := hdigits '_' h
    revert this
    decide
  have hall : digits.all Char.isDigit := List.all_eq_true.mpr hdigits
  simp [digits?, Text.pieces_of_not_mem hunderscore, hne, hall]

theorem fixed?_rest {n : Nat} {found : Nat × List Char} (hfixed : fixed? n s = some found) :
    found.2 = s.drop n := by
  rw [fixed?, Option.ite_none_right_eq_some] at hfixed
  rw [← Option.some.inj hfixed.2]

/-- Digits alone are neither a date nor a time, which need their separators. -/
theorem dateTime?_eq_none (hdigits : ∀ c ∈ digits, c.isDigit) : dateTime? digits = none := by
  have hsplit : ∀ (sep : Char) (n : Nat), sep.isDigit = false →
      Text.dropPrefix? [sep] (digits.drop n) = none := by
    intro sep n hsep
    cases hdrop : Text.dropPrefix? [sep] (digits.drop n) with
    | none => rfl
    | some after =>
      have htext := Text.dropPrefix?_eq_some_iff.mp hdrop
      have hmem : sep ∈ digits := List.mem_of_mem_drop (by rw [htext]; simp)
      rw [hdigits sep hmem] at hsep
      cases hsep
  have hdate : date? digits = none := by
    cases hyear : fixed? 4 digits with
    | none => simp [date?, hyear]
    | some year => simp [date?, hyear, fixed?_rest hyear, hsplit '-' 4 (by decide)]
  have htime : time? digits = none := by
    cases hhour : fixed? 2 digits with
    | none => simp [time?, hourMinute?, hhour]
    | some hour => simp [time?, hourMinute?, hhour, fixed?_rest hhour, hsplit ':' 2 (by decide)]
  simp [dateTime?, hdate, htime]

theorem integer?_of_all (hdigits : ∀ c ∈ digits, c.isDigit) :
    integer? digits = decimal? digits := by
  rw [integer?.eq_def]
  split
  · exact absurd (hdigits 'x' (by simp)) (by decide)
  · exact absurd (hdigits 'o' (by simp)) (by decide)
  · exact absurd (hdigits 'b' (by simp)) (by decide)
  · rfl

theorem splitSign_of_all (hdigits : ∀ c ∈ digits, c.isDigit) :
    splitSign digits = (false, digits) := by
  rw [splitSign.eq_def]
  split
  · exact absurd (hdigits '-' (by simp)) (by decide)
  · exact absurd (hdigits '+' (by simp)) (by decide)
  · rfl

theorem plainDigits?_writeNumber (n : Nat) :
    plainDigits? (Text.writeNumber n) = some (Text.writeNumber n) := by
  have hdigits := digits?_of_all (fun c hc => Text.isDigit_of_mem_writeNumber hc)
    (Text.writeNumber_ne_nil n)
  have hplain : ¬((Text.writeNumber n).length > 1 ∧ (Text.writeNumber n).head? = some '0') := by
    rintro ⟨hlong, hhead⟩
    rw [Text.eq_zero_of_head?_writeNumber hhead] at hlong
    exact absurd hlong (by decide)
  simp only [plainDigits?, hdigits, Option.bind_eq_bind, Option.bind_some, if_neg hplain]

theorem ranged_natCast {n : Nat} (hn : n < 2 ^ 63) : ranged n = some (.integer n) := by
  have hbound : Int.pow 2 63 = 2 ^ 63 := rfl
  have hrange : inRange n := by
    simp only [inRange, hbound, Bool.and_eq_true, decide_eq_true_eq]
    omega
  rw [ranged, if_pos hrange]

theorem decimal?_writeNumber {n : Nat} (hn : n < 2 ^ 63) :
    decimal? (Text.writeNumber n) = some (.integer n) := by
  have hsign : splitSign (Text.writeNumber n) = (false, Text.writeNumber n) :=
    splitSign_of_all fun c hc => Text.isDigit_of_mem_writeNumber hc
  rw [decimal?, hsign]
  dsimp only
  rw [plainDigits?_writeNumber, Option.bind_eq_bind, Option.bind_some,
    Text.digitsValue_writeNumber, if_neg (by decide), ranged_natCast hn]

theorem read?_writeNumber {n : Nat} (hn : n < 2 ^ 63) :
    read? (Text.writeNumber n) = some (.integer n) := by
  have hall : ∀ c ∈ Text.writeNumber n, c.isDigit := fun c hc => Text.isDigit_of_mem_writeNumber hc
  have hword : ∀ word : List Char, 'e' ∈ word → Text.writeNumber n ≠ word := by
    rintro word hletter rfl
    exact absurd (hall 'e' hletter) (by decide)
  rw [read?, if_neg (hword _ (by simp)), if_neg (hword _ (by simp)), dateTime?_eq_none hall,
    integer?_of_all hall, decimal?_writeNumber hn]
  rfl

theorem scan_writeNumber {n : Nat} (hn : n < 2 ^ 63) (hrest : Stops isWordChar rest)
    (hblank : rest.head? ≠ some ' ') :
    scan (Text.writeNumber n ++ rest) = some (.integer n, rest) := by
  have hall : ∀ c ∈ Text.writeNumber n, isWordChar c :=
    fun c hc => isWordChar_of_isDigit (Text.isDigit_of_mem_writeNumber hc)
  have hnext : ∀ r, rest ≠ ' ' :: r := by
    rintro r rfl
    exact hblank rfl
  simp only [scan, takeWhile_append_of_stops hall hrest, dropWhile_append_of_stops hall hrest,
    read?_writeNumber hn]
  rfl

end WakeRouter.Toml.Scalar
