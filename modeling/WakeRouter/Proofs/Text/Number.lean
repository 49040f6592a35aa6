import Mathlib.Algebra.Group.Nat.Defs
import WakeRouter.Text.Number

/-!
# Numbers read back

Readers take the run of digits at the front of a text and want to know that it ends
where the number does: `Stops` says so of the text behind it.  What `writeNumber` and
`writeHex` write are digits of one base and nothing else, and their value is the number
that was written.
-/

namespace WakeRouter.Text

variable {p : Char → Bool} {c : Char} {s digits rest : List Char}

/-! ## Runs at the front of a text -/

/-- The text does not go on with a character that fits. -/
def Stops (p : Char → Bool) (s : List Char) : Prop :=
  ∀ c, s.head? = some c → p c = false

theorem stops_nil : Stops p [] := by
  intro c hc
  cases hc

theorem stops_cons (hc : p c = false) : Stops p (c :: s) := by
  intro d hd
  cases hd
  exact hc

theorem ne_cons_of_stops (hs : Stops p s) (hc : p c) (tail : List Char) : s ≠ c :: tail := by
  rintro rfl
  rw [hs c rfl] at hc
  cases hc

theorem takeWhile_of_stops (hs : Stops p s) : s.takeWhile p = [] := by
  cases s with
  | nil => rfl
  | cons c s => simp [hs c rfl]

theorem dropWhile_of_stops (hs : Stops p s) : s.dropWhile p = s := by
  cases s with
  | nil => rfl
  | cons c s => simp [hs c rfl]

theorem takeWhile_append_of_stops (hdigits : ∀ c ∈ digits, p c) (hrest : Stops p rest) :
    (digits ++ rest).takeWhile p = digits := by
  rw [List.takeWhile_append_of_pos hdigits, takeWhile_of_stops hrest, List.append_nil]

theorem dropWhile_append_of_stops (hdigits : ∀ c ∈ digits, p c) (hrest : Stops p rest) :
    (digits ++ rest).dropWhile p = rest := by
  rw [List.dropWhile_append_of_pos hdigits, dropWhile_of_stops hrest]

/-! ## Decimal digits -/

theorem isDigit_of_mem_writeNumber {n : Nat} (hc : c ∈ writeNumber n) : c.isDigit :=
  Nat.isDigit_of_mem_toDigits (by decide) (by decide) hc

theorem not_mem_of_digits (hdigits : ∀ c ∈ digits, c.isDigit) (hc : c.isDigit = false) :
    c ∉ digits := by
  intro hmem
  rw [hdigits c hmem] at hc
  cases hc

theorem not_mem_writeNumber (hc : c.isDigit = false) (n : Nat) : c ∉ writeNumber n :=
  not_mem_of_digits (fun _ => isDigit_of_mem_writeNumber) hc

theorem writeNumber_ne_nil (n : Nat) : writeNumber n ≠ [] :=
  Nat.toDigits_ne_nil

theorem digitsValue_writeNumber (n : Nat) : digitsValue 0 (writeNumber n) = n :=
  Nat.ofDigitChars_ten_toDigits

theorem length_writeNumber_le {n k : Nat} (hk : 0 < k) (hn : n < 10 ^ k) :
    (writeNumber n).length ≤ k :=
  (Nat.length_toDigits_le_iff (by decide) hk).mpr hn

/-- Only zero is written with a zero in front. -/
theorem eq_zero_of_head?_writeNumber {n : Nat} (hhead : (writeNumber n).head? = some '0') :
    n = 0 := by
  induction n using Nat.strongRecOn with
  | ind n ih =>
    by_cases hn : n < 10
    · rw [writeNumber, Nat.toDigits_of_lt_base hn] at hhead
      have hall : ∀ d < 10, [Nat.digitChar d].head? = some '0' → d = 0 := by decide
      exact hall n hn hhead
    · have hge : 10 ≤ n := by omega
      rw [writeNumber, Nat.toDigits_of_base_le (by decide) hge] at hhead
      have hfront : (writeNumber (n / 10)).head? = some '0' := by
        cases hdigits : Nat.toDigits 10 (n / 10) with
        | nil => exact absurd hdigits Nat.toDigits_ne_nil
        | cons d digits =>
          rw [hdigits] at hhead
          rw [writeNumber, hdigits]
          exact hhead
      have := ih (n / 10) (by omega) hfront
      omega

theorem readNumber?_writeNumber {n bound : Nat} (hn : n < bound) :
    readNumber? bound (writeNumber n) = some n := by
  have hall : (writeNumber n).all Char.isDigit :=
    List.all_eq_true.mpr fun c hc => isDigit_of_mem_writeNumber hc
  have hvalue := digitsValue_writeNumber n
  cases hdigits : writeNumber n with
  | nil => exact absurd hdigits (writeNumber_ne_nil n)
  | cons d digits =>
    rw [hdigits] at hall hvalue
    have hsign : d ≠ '+' := by
      rintro rfl
      simp at hall
    simp [readNumber?, hsign, hall, hvalue, hn]

theorem lt_of_readNumber? {s : List Char} {n bound : Nat} (hread : readNumber? bound s = some n) :
    n < bound := by
  simp only [readNumber?, Option.ite_none_left_eq_some, Option.ite_none_right_eq_some] at hread
  obtain ⟨-, hlt, hvalue⟩ := hread
  rw [← Option.some.inj hvalue]
  exact hlt

/-! ## Hexadecimal digits -/

theorem hexValue?_digitChar {d : Nat} (hd : d < 16) : hexValue? (Nat.digitChar d) = some d := by
  have hall : ∀ d < 16, hexValue? (Nat.digitChar d) = some d := by decide
  exact hall d hd

theorem hexValue?_toUpper_digitChar {d : Nat} (hd : d < 16) :
    hexValue? (Nat.digitChar d).toUpper = some d := by
  have hall : ∀ d < 16, hexValue? (Nat.digitChar d).toUpper = some d := by decide
  exact hall d hd

theorem writeHex_ne_nil (n : Nat) : writeHex n ≠ [] :=
  Nat.toDigits_ne_nil

theorem length_writeHex_le {n k : Nat} (hk : 0 < k) (hn : n < 16 ^ k) :
    (writeHex n).length ≤ k :=
  (Nat.length_toDigits_le_iff (by decide) hk).mpr hn

theorem hexValue?_of_mem_writeHex {n : Nat} (hc : c ∈ writeHex n) : (hexValue? c).isSome := by
  induction n using Nat.strongRecOn with
  | ind n ih =>
    by_cases hn : n < 16
    · rw [writeHex, Nat.toDigits_of_lt_base hn, List.mem_singleton] at hc
      rw [hc, hexValue?_digitChar hn]
      rfl
    · rw [writeHex, Nat.toDigits_of_base_le (by decide) (by omega), List.mem_append,
        List.mem_singleton] at hc
      rcases hc with hfront | hlast
      · exact ih (n / 16) (by omega) hfront
      · rw [hlast, hexValue?_digitChar (Nat.mod_lt n (by decide))]
        rfl

/-- Reading the digits of a number one after the other gives the number, in whichever
case they were written. -/
theorem foldlM_hexValue?_writeHex {shown : Char → Char}
    (hshown : ∀ d < 16, hexValue? (shown (Nat.digitChar d)) = some d) (n : Nat) :
    ((writeHex n).map shown).foldlM (fun n c => (hexValue? c).map (16 * n + ·)) 0 = some n := by
  induction n using Nat.strongRecOn with
  | ind n ih =>
    by_cases hn : n < 16
    · rw [writeHex, Nat.toDigits_of_lt_base hn]
      simp [hshown n hn]
    · have hlast := hshown (n % 16) (Nat.mod_lt n (by decide))
      have hfront := ih (n / 16) (by omega)
      rw [writeHex] at hfront
      rw [writeHex, Nat.toDigits_of_base_le (by decide) (by omega), List.map_append,
        List.foldlM_append, hfront]
      have hvalue : 16 * (n / 16) + n % 16 = n := Nat.div_add_mod n 16
      simp [hlast, hvalue]

/-- Where every digit has a value, it does not matter what the others would count. -/
theorem foldl_hexValue?_eq {digits : List Char} {start n : Nat}
    (hread : digits.foldlM (fun n c => (hexValue? c).map (16 * n + ·)) start = some n) :
    digits.foldl (fun n c => 16 * n + (hexValue? c).getD 0) start = n := by
  induction digits generalizing start with
  | nil => simpa using hread
  | cons c digits ih =>
    rw [List.foldlM_cons] at hread
    cases hc : hexValue? c with
    | none => simp [hc] at hread
    | some d =>
      simp only [hc, Option.map_some, Option.bind_eq_bind, Option.bind_some] at hread
      simpa [hc] using ih hread

theorem foldl_hexValue?_writeHex (n : Nat) :
    (writeHex n).foldl (fun n c => 16 * n + (hexValue? c).getD 0) 0 = n := by
  have hread := @foldlM_hexValue?_writeHex id (fun d hd => hexValue?_digitChar hd) n
  rw [List.map_id] at hread
  exact foldl_hexValue?_eq hread

end WakeRouter.Text
