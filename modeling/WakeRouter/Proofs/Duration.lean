import WakeRouter.Duration
import WakeRouter.Proofs.Text.Number

/-!
# Durations read back

A duration that was read is a whole number of milliseconds or of seconds below the bound
that both readers and writers keep.  Writing changes the unit at most from milliseconds
to seconds, which divides the number, so what is written is read again as the same
duration.
-/

namespace WakeRouter

namespace Text

theorem isBlank_of_mem_writeNumber {n : Nat} {c : Char} (hc : c ∈ writeNumber n) :
    isBlank c = false :=
  isBlank_of_isDigit (isDigit_of_mem_writeNumber hc)

theorem trim_writeNumber (n : Nat) : trim (writeNumber n) = writeNumber n :=
  trim_eq_self (fun _ hc => isBlank_of_mem_writeNumber (List.mem_of_mem_head? hc))
    (fun _ hc => isBlank_of_mem_writeNumber (List.mem_of_getLast? hc))

/-- A number with a unit behind it has no blanks to lose. -/
theorem trim_writeNumber_append (n : Nat) {unit : List Char} {last : Char}
    (hlast : unit.getLast? = some last) (hblank : isBlank last = false) :
    trim (writeNumber n ++ unit) = writeNumber n ++ unit := by
  apply trim_eq_self
  · intro c hc
    cases hdigits : writeNumber n with
    | nil => exact absurd hdigits (writeNumber_ne_nil n)
    | cons d digits =>
      rw [hdigits] at hc
      cases hc
      exact isBlank_of_mem_writeNumber (n := n) (by simp [hdigits])
  · intro c hc
    rw [List.getLast?_append, hlast, Option.some_or] at hc
    rw [← Option.some.inj hc]
    exact hblank

end Text

namespace Duration

/-- What texts can say: whole milliseconds or whole seconds within the bound. -/
inductive Spelled : Duration → Prop
  | millis {n : Nat} (hn : n < numberBound) : Spelled (ofMillis n)
  | seconds {n : Nat} (hn : n < numberBound) : Spelled (ofSeconds n)

theorem spelled_of_ofUnits? {secondsPerUnit n : Nat} {d : Duration}
    (hunits : ofUnits? secondsPerUnit n = some d) : Spelled d := by
  rw [ofUnits?, Option.ite_none_right_eq_some] at hunits
  obtain ⟨hn, hd⟩ := hunits
  rw [← Option.some.inj hd]
  exact .seconds hn

theorem spelled_of_read? {text : List Char} {d : Duration} (hread : read? text = some d) :
    Spelled d := by
  simp only [read?] at hread
  split at hread
  · obtain ⟨n, hn, rfl⟩ := Option.map_eq_some_iff.mp hread
    exact .millis (Text.lt_of_readNumber? hn)
  · split at hread
    · obtain ⟨n, hn, rfl⟩ := Option.map_eq_some_iff.mp hread
      exact .seconds (Text.lt_of_readNumber? hn)
    · split at hread
      · obtain ⟨n, -, hunits⟩ := Option.bind_eq_some_iff.mp hread
        exact spelled_of_ofUnits? hunits
      · split at hread
        · obtain ⟨n, -, hunits⟩ := Option.bind_eq_some_iff.mp hread
          exact spelled_of_ofUnits? hunits
        · obtain ⟨n, hn, rfl⟩ := Option.map_eq_some_iff.mp hread
          exact .seconds (Text.lt_of_readNumber? hn)

theorem read?_millis {n : Nat} (hn : n < numberBound) :
    read? (Text.writeNumber n ++ ['m', 's']) = some (ofMillis n) := by
  have htrim := Text.trim_writeNumber_append n (show ['m', 's'].getLast? = some 's' from rfl)
    (by decide)
  have hunit : Text.dropSuffix? ['m', 's'] (Text.writeNumber n ++ ['m', 's']) =
      some (Text.writeNumber n) := Text.dropSuffix?_eq_some_iff.mpr rfl
  simp [read?, htrim, hunit, Text.trim_writeNumber, Text.readNumber?_writeNumber hn]

theorem read?_seconds {n : Nat} (hn : n < numberBound) :
    read? (Text.writeNumber n ++ ['s']) = some (ofSeconds n) := by
  have htrim := Text.trim_writeNumber_append n (show ['s'].getLast? = some 's' from rfl) (by decide)
  have hmillis : Text.dropSuffix? ['m', 's'] (Text.writeNumber n ++ ['s']) = none := by
    cases hdrop : Text.dropSuffix? ['m', 's'] (Text.writeNumber n ++ ['s']) with
    | none => rfl
    | some front =>
      -- The letter before the `s` would have to be a digit.
      have htext := Text.dropSuffix?_eq_some_iff.mp hdrop
      have hsplit : Text.writeNumber n ++ ['s'] = (front ++ ['m']) ++ ['s'] := by simpa using htext
      have hdigits := List.append_cancel_right hsplit
      have hdigit : 'm'.isDigit := Text.isDigit_of_mem_writeNumber (n := n) (by simp [hdigits])
      cases hdigit
  have hunit : Text.dropSuffix? ['s'] (Text.writeNumber n ++ ['s']) =
      some (Text.writeNumber n) := Text.dropSuffix?_eq_some_iff.mpr rfl
  simp [read?, htrim, hmillis, hunit, Text.trim_writeNumber, Text.readNumber?_writeNumber hn]

theorem write_ofSeconds (n : Nat) : (ofSeconds n).write = Text.writeNumber n ++ ['s'] := by
  have hpart : (ofSeconds n).subsecondMillis = 0 := by simp [subsecondMillis, ofSeconds]
  have hwhole : (ofSeconds n).toSeconds = n := by simp [toSeconds, ofSeconds]
  simp [write, hpart, hwhole]

theorem write_ofMillis {n : Nat} (hpart : n % 1000 ≠ 0) :
    (ofMillis n).write = Text.writeNumber n ++ ['m', 's'] := by
  have hbelow : (ofMillis n).subsecondMillis ≠ 0 := by
    simp only [subsecondMillis, ofMillis]
    omega
  have hwhole : (ofMillis n).toMillis = n := by simp [toMillis, ofMillis]
  simp [write, hbelow, hwhole]

/-- Milliseconds that fill whole seconds are these seconds. -/
theorem ofMillis_eq_ofSeconds {n : Nat} (hwhole : n % 1000 = 0) :
    ofMillis n = ofSeconds (n / 1000) := by
  simp only [ofMillis, ofSeconds, Duration.mk.injEq]
  omega

theorem read?_write {d : Duration} (hd : Spelled d) : read? d.write = some d := by
  cases hd with
  | millis hn =>
    rename_i n
    by_cases hwhole : n % 1000 = 0
    · have hseconds : n / 1000 < numberBound := Nat.lt_of_le_of_lt (Nat.div_le_self n 1000) hn
      rw [ofMillis_eq_ofSeconds hwhole, write_ofSeconds, read?_seconds hseconds]
    · rw [write_ofMillis hwhole, read?_millis hn]
  | seconds hn => rw [write_ofSeconds, read?_seconds hn]

/-- The unit changes, the duration does not. -/
example : (read? "90000 ms".toList).map write = some "90s".toList := by decide +kernel

end Duration

end WakeRouter
