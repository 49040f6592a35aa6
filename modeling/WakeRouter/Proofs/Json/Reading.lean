import Mathlib.Data.List.TakeWhile
import WakeRouter.Proofs.Json.Strings

/-!
# Reading JSON follows the grammar

The reader goes through the text symbol by symbol, with a bound for the depth and one for the
number of items.  Neither bound is ever met, so what it reads is what the grammar says that the
text holds, and a text holds one value at most.
-/

namespace WakeRouter.Json

open Reader

variable {c : Option Char} {s t rest : Symbols}

/-! ## Tokens -/

theorem gap_skipSpace (s : Symbols) : Gap s (skipSpace s) := by
  induction s with
  | nil => exact .nothing
  | cons c s ih =>
      rw [skipSpace, List.dropWhile_cons]
      split
      next hc => exact .blank hc ih
      next => exact .nothing

theorem Gap.skipSpace_eq (hgap : Gap s rest) : skipSpace s = skipSpace rest := by
  induction hgap with
  | nothing => rfl
  | blank hc _ ih => rw [← ih, skipSpace, List.dropWhile_cons_of_pos hc, skipSpace]

theorem skipSpace_cons (hc : isSpace c = false) : skipSpace (c :: s) = c :: s :=
  List.dropWhile_cons_of_neg (by simp [hc])

theorem Gap.skipSpace_cons (hgap : Gap s (c :: rest)) (hc : isSpace c = false) :
    skipSpace s = c :: rest :=
  hgap.skipSpace_eq.trans (Json.skipSpace_cons hc)

/-! ## Numbers -/

/-- The text does not go on with a character that fits. -/
def Ends (p : Char → Bool) (s : Symbols) : Prop :=
  ∀ c, s.head? = some (some c) → p c = false

/-- What a number may go on with behind a digit. -/
def isNumeric (c : Char) : Bool :=
  c.isDigit || c == '.' || c == 'e' || c == 'E'

variable {p q : Char → Bool} {literal digits whole fraction exponent : List Char}

theorem ends_cons {x : Char} (hx : p x = false) : Ends p (some x :: s) := by
  rintro _ ⟨⟩
  exact hx

theorem Ends.mono (hs : Ends p s) (hpq : ∀ c, p c = false → q c = false) : Ends q s :=
  fun c hc => hpq c (hs c hc)

theorem ends_append (hrest : Ends p rest) (hfirst : ∀ c, literal.head? = some c → p c = false) :
    Ends p (literal.map some ++ rest) := by
  cases literal with
  | nil => exact hrest
  | cons c literal =>
      rintro _ ⟨⟩
      exact hfirst c rfl

theorem Ends.ne_cons {x : Char} (hs : Ends p s) (hx : p x) : s ≠ some x :: t := by
  rintro rfl
  rw [hs x rfl] at hx
  cases hx

theorem scanDigits_of_isDigits (hdigits : IsDigits digits) (hrest : Ends Char.isDigit rest) :
    scanDigits (digits.map some ++ rest) = some (digits, rest) := by
  have hall : ∀ c ∈ digits.map some, isDigit c := by
    simpa [isDigit] using hdigits.digit
  have hstop : rest.takeWhile isDigit = [] ∧ rest.dropWhile isDigit = rest := by
    cases rest with
    | nil => exact ⟨rfl, rfl⟩
    | cons c rest =>
        have hc : isDigit c = false := by
          cases c with
          | none => rfl
          | some c => exact hrest c rfl
        simp [hc]
  unfold scanDigits
  rw [List.takeWhile_append_of_pos hall, List.dropWhile_append_of_pos hall, hstop.1, hstop.2]
  simp [hdigits.ne_nil]

/-- Digits are well-formed. -/
theorem exists_of_isDigit (hs : ∀ c ∈ s, isDigit c) :
    ∃ digits : List Char, s = digits.map some ∧ ∀ c ∈ digits, c.isDigit := by
  induction s with
  | nil => exact ⟨[], rfl, by simp⟩
  | cons c s ih =>
      obtain ⟨digits, rfl, hdigits⟩ := ih fun x hx => hs x (List.mem_cons_of_mem c hx)
      have hc := hs c List.mem_cons_self
      cases c with
      | none => cases hc
      | some c => exact ⟨c :: digits, rfl, List.forall_mem_cons.mpr ⟨hc, hdigits⟩⟩

theorem isDigits_of_scanDigits (hs : scanDigits s = some (digits, rest)) :
    s = digits.map some ++ rest ∧ IsDigits digits := by
  simp only [scanDigits, Option.ite_none_left_eq_some, List.isEmpty_iff, Option.some.injEq,
    Prod.mk.injEq] at hs
  obtain ⟨hne, hdigits, rfl⟩ := hs
  obtain ⟨found, hfound, hall⟩ := exists_of_isDigit (s := s.takeWhile isDigit)
    fun c hc => List.all_eq_true.mp List.all_takeWhile c hc
  obtain rfl : found = digits := by simpa [hfound] using hdigits
  refine ⟨?_, ?_, hall⟩
  · rw [← hfound, List.takeWhile_append_dropWhile]
  · rintro rfl
    exact hne hfound

theorem IsWhole.digit (hwhole : IsWhole whole) : ∀ c ∈ whole, c.isDigit := by
  cases hwhole with
  | zero => simp
  | digits hdigits => exact hdigits.digit

theorem scanWhole_of_isWhole (hwhole : IsWhole whole) (hrest : Ends Char.isDigit rest) :
    scanWhole (whole.map some ++ rest) = some (whole, rest) := by
  cases hwhole with
  | zero => rfl
  | digits hdigits hfirst =>
      obtain ⟨c, digits, rfl⟩ := List.exists_cons_of_ne_nil hdigits.ne_nil
      rw [scanWhole, scanDigits_of_isDigits hdigits hrest]
      rintro rest' hzero
      simp_all

theorem isWhole_of_scanWhole (hs : scanWhole s = some (whole, rest)) :
    s = whole.map some ++ rest ∧ IsWhole whole := by
  unfold scanWhole at hs
  split at hs
  next =>
    cases hs
    exact ⟨rfl, .zero⟩
  next hzero =>
    obtain ⟨rfl, hdigits⟩ := isDigits_of_scanDigits hs
    refine ⟨rfl, .digits hdigits fun hfirst => ?_⟩
    obtain ⟨digits, rfl⟩ := List.head?_eq_some_iff.mp hfirst
    exact hzero _ rfl

theorem scanFraction_of_isFraction (hfraction : IsFraction fraction)
    (hrest : Ends (fun c => c.isDigit || c == '.') rest) :
    scanFraction (fraction.map some ++ rest) = some (fraction, rest) := by
  cases hfraction with
  | nothing =>
      rw [List.map_nil, List.nil_append, scanFraction]
      exact fun _ => hrest.ne_cons (by decide)
  | digits hdigits =>
      have hdigit : Ends Char.isDigit rest := hrest.mono (by simp +contextual)
      simp [scanFraction, scanDigits_of_isDigits hdigits hdigit]

theorem isFraction_of_scanFraction (hs : scanFraction s = some (fraction, rest)) :
    s = fraction.map some ++ rest ∧ IsFraction fraction := by
  unfold scanFraction at hs
  split at hs
  next =>
    simp only [Option.map_eq_some_iff, Prod.exists] at hs
    obtain ⟨digits, rest, hs, ⟨⟩⟩ := hs
    obtain ⟨rfl, hdigits⟩ := isDigits_of_scanDigits hs
    exact ⟨rfl, .digits hdigits⟩
  next =>
    cases hs
    exact ⟨rfl, .nothing⟩

theorem scanExponent_of_isExponent (hexponent : IsExponent exponent)
    (hrest : Ends isNumeric rest) :
    scanExponent (exponent.map some ++ rest) = some (exponent, rest) := by
  have hdigit : Ends Char.isDigit rest := hrest.mono (by simp +contextual [isNumeric])
  cases hexponent with
  | nothing =>
      rw [List.map_nil, List.nil_append, scanExponent]
      · exact fun _ => hrest.ne_cons (by decide)
      · exact fun _ => hrest.ne_cons (by decide)
  | @plain e digits he hdigits =>
      have hscan := scanDigits_of_isDigits hdigits hdigit
      obtain ⟨c, digits, rfl⟩ := List.exists_cons_of_ne_nil hdigits.ne_nil
      have hc := hdigits.digit c List.mem_cons_self
      have hplus : c ≠ '+' := by
        rintro rfl
        cases hc
      have hminus : c ≠ '-' := by
        rintro rfl
        cases hc
      rw [List.map_cons, List.cons_append] at hscan
      rcases he with rfl | rfl <;> simp [scanExponent, hscan, hplus, hminus]
  | signed he hsign hdigits =>
      have hscan := scanDigits_of_isDigits hdigits hdigit
      rcases he with rfl | rfl <;> rcases hsign with rfl | rfl <;> simp [scanExponent, hscan]

theorem isExponent_of_scanExponent (hs : scanExponent s = some (exponent, rest)) :
    s = exponent.map some ++ rest ∧ IsExponent exponent := by
  have hplain : ∀ {e : Char} {t : Symbols}, e = 'e' ∨ e = 'E' →
      (scanDigits t).map (fun p => (e :: p.1, p.2)) = some (exponent, rest) →
        some e :: t = exponent.map some ++ rest ∧ IsExponent exponent := by
    intro e t he ht
    simp only [Option.map_eq_some_iff, Prod.exists] at ht
    obtain ⟨digits, rest, ht, ⟨⟩⟩ := ht
    obtain ⟨rfl, hdigits⟩ := isDigits_of_scanDigits ht
    exact ⟨rfl, .plain he hdigits⟩
  have hsigned : ∀ {e sign : Char} {t : Symbols}, e = 'e' ∨ e = 'E' → sign = '+' ∨ sign = '-' →
      (scanDigits t).map (fun p => (e :: sign :: p.1, p.2)) = some (exponent, rest) →
        some e :: some sign :: t = exponent.map some ++ rest ∧ IsExponent exponent := by
    intro e sign t he hsign ht
    simp only [Option.map_eq_some_iff, Prod.exists] at ht
    obtain ⟨digits, rest, ht, ⟨⟩⟩ := ht
    obtain ⟨rfl, hdigits⟩ := isDigits_of_scanDigits ht
    exact ⟨rfl, .signed he hsign hdigits⟩
  unfold scanExponent at hs
  split at hs
  next =>
    dsimp only at hs
    split at hs
    · exact hsigned (.inl rfl) (.inl rfl) hs
    · exact hsigned (.inl rfl) (.inr rfl) hs
    · exact hplain (.inl rfl) hs
  next =>
    dsimp only at hs
    split at hs
    · exact hsigned (.inr rfl) (.inl rfl) hs
    · exact hsigned (.inr rfl) (.inr rfl) hs
    · exact hplain (.inr rfl) hs
  next =>
    cases hs
    exact ⟨rfl, .nothing⟩

theorem IsExponent.first {c : Char} (hexponent : IsExponent exponent)
    (hc : exponent.head? = some c) : c = 'e' ∨ c = 'E' := by
  cases hexponent with
  | nothing => cases hc
  | plain he | signed he =>
      cases hc
      exact he

theorem IsFraction.first {c : Char} (hfraction : IsFraction fraction)
    (hc : fraction.head? = some c) : c = '.' := by
  cases hfraction with
  | nothing => cases hc
  | digits => exact (Option.some.inj hc).symm

/-- A number is read as far as it goes. -/
theorem scanNumber_of_isNumber (hliteral : IsNumber literal) (hrest : Ends isNumeric rest) :
    scanNumber (literal.map some ++ rest) = some (literal, rest) := by
  cases hliteral with
  | @number sign whole fraction exponent hsign hwhole hfraction hexponent =>
      have hend : Ends (fun c => c.isDigit || c == '.') (exponent.map some ++ rest) := by
        apply ends_append (hrest.mono (by simp +contextual [isNumeric]))
        intro c hc
        rcases hexponent.first hc with rfl | rfl <;> rfl
      have hpoint : Ends Char.isDigit (fraction.map some ++ (exponent.map some ++ rest)) := by
        apply ends_append (hend.mono (by simp +contextual))
        intro c hc
        rw [hfraction.first hc]
        rfl
      have hscan := scanWhole_of_isWhole hwhole hpoint
      have hfraction := scanFraction_of_isFraction hfraction hend
      have hexponent := scanExponent_of_isExponent hexponent hrest
      obtain ⟨c, digits, rfl⟩ := List.exists_cons_of_ne_nil hwhole.ne_nil
      have hminus : c ≠ '-' := by
        rintro rfl
        exact absurd (hwhole.digit '-' List.mem_cons_self) (by decide)
      rw [List.map_cons, List.cons_append] at hscan
      rcases hsign with rfl | rfl <;>
        simp [scanNumber, hminus, hscan, hfraction, hexponent]

theorem isNumber_of_scanNumber (hs : scanNumber s = some (literal, rest)) :
    s = literal.map some ++ rest ∧ IsNumber literal := by
  unfold scanNumber at hs
  split at hs
  next sign t hsigned =>
    obtain ⟨hsign, ht⟩ : (sign = [] ∨ sign = ['-']) ∧ s = sign.map some ++ t := by
      split at hsigned
      next =>
        obtain ⟨rfl, rfl⟩ := Prod.mk.inj hsigned
        exact ⟨.inr rfl, rfl⟩
      next =>
        obtain ⟨rfl, rfl⟩ := Prod.mk.inj hsigned
        exact ⟨.inl rfl, rfl⟩
    simp only [Option.bind_eq_bind, Option.bind_eq_some_iff, Prod.exists] at hs
    obtain ⟨whole, u, hwhole, fraction, v, hfraction, exponent, w, hexponent, ⟨⟩⟩ := hs
    obtain ⟨rfl, hwhole'⟩ := isWhole_of_scanWhole hwhole
    obtain ⟨rfl, hfraction'⟩ := isFraction_of_scanFraction hfraction
    obtain ⟨rfl, hexponent'⟩ := isExponent_of_scanExponent hexponent
    exact ⟨by simp [ht], .number hsign hwhole' hfraction' hexponent'⟩

/-! ## Values -/

variable {value : Value} {items : List Value} {field : Option String × Value}
  {fields : List (Option String × Value)} {depth fuel : Nat}

/-- A text that begins a value is not a blank and closes nothing. -/
def Begins (s : Symbols) : Prop :=
  ∃ c t, s = some c :: t ∧ isSpace (some c) = false ∧ c ≠ ']' ∧ c ≠ '\x7d'

/-- A number begins with none of the characters that another value begins or ends with. -/
theorem IsNumber.exists_cons (hliteral : IsNumber literal) :
    ∃ c digits, literal = c :: digits ∧ ∀ x : Char, x ≠ '-' → x.isDigit = false → c ≠ x := by
  cases hliteral with
  | @number sign whole fraction exponent hsign hwhole _ _ =>
      obtain ⟨c, digits, rfl⟩ := List.exists_cons_of_ne_nil hwhole.ne_nil
      rcases hsign with rfl | rfl
      · refine ⟨c, _, rfl, ?_⟩
        rintro x - hdigit rfl
        rw [hwhole.digit c List.mem_cons_self] at hdigit
        cases hdigit
      · exact ⟨'-', _, rfl, fun x hminus _ => hminus.symm⟩

theorem Spells.begins (hs : Spells s value rest) : Begins s := by
  cases hs with
  | number hliteral =>
      obtain ⟨c, digits, rfl, hne⟩ := hliteral.exists_cons
      refine ⟨c, _, rfl, ?_, hne ']' (by decide) (by decide), hne '\x7d' (by decide) (by decide)⟩
      have hblank := hne ' ' (by decide) (by decide)
      have hline := hne '\n' (by decide) (by decide)
      have htab := hne '\t' (by decide) (by decide)
      have hreturn := hne '\r' (by decide) (by decide)
      simp [isSpace, hblank, hline, htab, hreturn]
  | null | yes | no | string | emptyArray | array | emptyObject | object =>
      exact ⟨_, _, rfl, by decide, by decide, by decide⟩

theorem SpellsItems.begins (hs : SpellsItems s items rest) : Begins s := by
  cases hs with
  | last hvalue => exact hvalue.begins
  | more hvalue => exact hvalue.begins

theorem SpellsFields.begins (hs : SpellsFields s fields rest) : Begins s := by
  cases hs with
  | last hfield | more hfield =>
      cases hfield
      exact ⟨_, _, rfl, by decide, by decide, by decide⟩

theorem Gap.skipSpace_of_begins (hgap : Gap s t) (ht : Begins t) : skipSpace s = t := by
  obtain ⟨c, t, rfl, hc, -⟩ := ht
  exact hgap.skipSpace_cons hc

/-- A blank ends a number. -/
theorem Gap.ends (hgap : Gap s rest) (hrest : Ends isNumeric rest) : Ends isNumeric s := by
  cases hgap with
  | nothing => exact hrest
  | blank hc =>
      rintro x ⟨⟩
      simp only [isSpace, Bool.or_eq_true, beq_iff_eq, Option.some.injEq] at hc
      rcases hc with ((rfl | rfl) | rfl) | rfl <;> rfl

theorem scanValue_number (hliteral : IsNumber literal) (hrest : Ends isNumeric rest) :
    scanValue depth (literal.map some ++ rest) = some (.number literal, rest) := by
  have hscan := scanNumber_of_isNumber hliteral hrest
  obtain ⟨c, digits, rfl, hne⟩ := hliteral.exists_cons
  rw [List.map_cons, List.cons_append] at hscan ⊢
  have hother : ∀ {x : Char} {s t : Symbols}, x ≠ '-' → x.isDigit = false →
      some c :: s ≠ some x :: t :=
    fun hminus hdigit hsame => hne _ hminus hdigit (Option.some.inj (List.cons.inj hsame).1)
  unfold scanValue
  split
  case h_7 => rw [hscan, Option.map_some]
  all_goals
    next hsame => exact absurd hsame (hother (by decide) (by decide))

theorem scanValue_emptyArray (hgap : Gap s (some ']' :: rest)) :
    scanValue (depth + 1) (some '[' :: s) = some (.array [], rest) := by
  unfold scanValue
  simp [hgap.skipSpace_cons rfl]

theorem scanValue_array (hgap : Gap s t) (ht : Begins t) :
    scanValue (depth + 1) (some '[' :: s) =
      (scanItems (scanValue depth) t.length t).map fun (items, rest) => (.array items, rest) := by
  have hskip := hgap.skipSpace_of_begins ht
  obtain ⟨c, t, rfl, -, hc, -⟩ := ht
  unfold scanValue
  simp only [hskip]
  split
  next hsame => exact absurd (Option.some.inj (List.cons.inj hsame).1) hc
  next => rfl

theorem scanValue_emptyObject (hgap : Gap s (some '\x7d' :: rest)) :
    scanValue (depth + 1) (some '\x7b' :: s) = some (.object [], rest) := by
  unfold scanValue
  simp [hgap.skipSpace_cons rfl]

theorem scanValue_object (hgap : Gap s t) (ht : Begins t) :
    scanValue (depth + 1) (some '\x7b' :: s) =
      (scanFields (scanValue depth) t.length t).map fun (fields, rest) =>
        (.object fields, rest) := by
  have hskip := hgap.skipSpace_of_begins ht
  obtain ⟨c, t, rfl, -, -, hc⟩ := ht
  unfold scanValue
  simp only [hskip]
  split
  next hsame => exact absurd (Option.some.inj (List.cons.inj hsame).1) hc
  next => rfl

/-! ### What is spelt is read -/

mutual

theorem scanValue_of_spells {s rest : Symbols} {value : Value} {depth : Nat}
    (hs : Spells s value rest) (hdepth : s.length ≤ depth)
    (hrest : ∀ literal, value = .number literal → Ends isNumeric rest) :
    scanValue depth s = some (value, rest) := by
  cases hs with
  | null | yes | no => simp [scanValue]
  | number hliteral => exact scanValue_number hliteral (hrest _ rfl)
  | string hs htext => simp [scanValue, scanString_of_spells hs, textOf?_of_hasText htext]
  | emptyArray hgap =>
      cases depth with
      | zero => simp at hdepth
      | succ depth => exact scanValue_emptyArray hgap
  | array hgap hitems =>
      cases depth with
      | zero => simp at hdepth
      | succ depth =>
          have hinner := Nat.le_trans hgap.length_le (Nat.le_of_succ_le_succ hdepth)
          rw [scanValue_array hgap hitems.begins,
            scanItems_of_spells hitems hinner (Nat.le_refl _), Option.map_some]
  | emptyObject hgap =>
      cases depth with
      | zero => simp at hdepth
      | succ depth => exact scanValue_emptyObject hgap
  | object hgap hfields =>
      cases depth with
      | zero => simp at hdepth
      | succ depth =>
          have hinner := Nat.le_trans hgap.length_le (Nat.le_of_succ_le_succ hdepth)
          rw [scanValue_object hgap hfields.begins,
            scanFields_of_spells hfields hinner (Nat.le_refl _), Option.map_some]

theorem scanItems_of_spells {s rest : Symbols} {items : List Value} {depth fuel : Nat}
    (hs : SpellsItems s items rest) (hdepth : s.length ≤ depth)
    (hfuel : s.length ≤ fuel) : scanItems (scanValue depth) fuel s = some (items, rest) := by
  have hpos := hs.length_lt
  cases fuel with
  | zero => omega
  | succ fuel =>
  cases hs with
  | last hvalue hclose =>
      have hscan := scanValue_of_spells hvalue hdepth fun _ _ => hclose.ends (ends_cons rfl)
      simp [scanItems, hscan, hclose.skipSpace_cons rfl]
  | @more _ t u v _ _ _ hvalue hcomma hgap hvalues =>
      have hscan := scanValue_of_spells hvalue hdepth fun _ _ => hcomma.ends (ends_cons rfl)
      have hshorter : v.length < s.length := by
        have := hvalue.length_lt
        have := hcomma.length_lt
        have := hgap.length_le
        omega
      have hinner : v.length ≤ depth := by omega
      have hmore := scanItems_of_spells hvalues hinner (Nat.le_of_lt_succ (hshorter.trans_le hfuel))
      simp [scanItems, hscan, hcomma.skipSpace_cons rfl, hgap.skipSpace_of_begins hvalues.begins,
        hmore]

theorem scanField_of_spells {s rest : Symbols} {field : Option String × Value} {depth : Nat}
    (hs : SpellsField s field rest) (hdepth : s.length ≤ depth)
    (hrest : Ends isNumeric rest) : scanField (scanValue depth) s = some (field, rest) := by
  cases hs with
  | @named s t u v _ _ _ _ hname htext hcolon hgap hvalue =>
      have hshorter : v.length < s.length := by
        have := hname.length_lt
        have := hcolon.length_lt
        have := hgap.length_le
        omega
      rw [List.length_cons] at hdepth
      have hinner : v.length ≤ depth := by omega
      have hscan := scanValue_of_spells hvalue hinner fun _ _ => hrest
      simp [scanField, scanString_of_spells hname, textOf?_of_hasText htext,
        hcolon.skipSpace_cons rfl, hgap.skipSpace_of_begins hvalue.begins, hscan]

theorem scanFields_of_spells {s rest : Symbols} {fields : List (Option String × Value)}
    {depth fuel : Nat} (hs : SpellsFields s fields rest) (hdepth : s.length ≤ depth)
    (hfuel : s.length ≤ fuel) : scanFields (scanValue depth) fuel s = some (fields, rest) := by
  have hpos := hs.length_lt
  cases fuel with
  | zero => omega
  | succ fuel =>
  cases hs with
  | last hfield hclose =>
      have hscan := scanField_of_spells hfield hdepth (hclose.ends (ends_cons rfl))
      simp [scanFields, hscan, hclose.skipSpace_cons rfl]
  | @more _ t u v _ _ _ hfield hcomma hgap hfields =>
      have hscan := scanField_of_spells hfield hdepth (hcomma.ends (ends_cons rfl))
      have hshorter : v.length < s.length := by
        have := hfield.length_lt
        have := hcomma.length_lt
        have := hgap.length_le
        omega
      have hinner : v.length ≤ depth := by omega
      have hmore := scanFields_of_spells hfields hinner
        (Nat.le_of_lt_succ (hshorter.trans_le hfuel))
      simp [scanFields, hscan, hcomma.skipSpace_cons rfl, hgap.skipSpace_of_begins hfields.begins,
        hmore]

end

/-! ### What is read is spelt -/

theorem spells_of_scanItems {item : Scan Value}
    (hitem : ∀ {s rest value}, item s = some (value, rest) → Spells s value rest)
    (hs : scanItems item fuel s = some (items, rest)) : SpellsItems s items rest := by
  induction fuel generalizing s items with
  | zero => cases hs
  | succ fuel ih =>
      simp only [scanItems, Option.bind_eq_bind, Option.bind_eq_some_iff, Prod.exists] at hs
      obtain ⟨value, t, hvalue, hs⟩ := hs
      split at hs
      next u hcomma =>
        simp only [Option.bind_eq_some_iff, Prod.exists] at hs
        obtain ⟨values, rest, hvalues, ⟨⟩⟩ := hs
        exact .more (hitem hvalue) (hcomma ▸ gap_skipSpace t) (gap_skipSpace u) (ih hvalues)
      next hclose =>
        cases hs
        exact .last (hitem hvalue) (hclose ▸ gap_skipSpace t)
      next => cases hs

theorem spells_of_scanField {item : Scan Value}
    (hitem : ∀ {s rest value}, item s = some (value, rest) → Spells s value rest)
    (hs : scanField item s = some (field, rest)) : SpellsField s field rest := by
  unfold scanField at hs
  split at hs
  next s =>
    simp only [Option.bind_eq_bind, Option.bind_eq_some_iff, Prod.exists] at hs
    obtain ⟨name, t, hname, hs⟩ := hs
    split at hs
    next u hcolon =>
      simp only [Option.bind_eq_some_iff, Prod.exists] at hs
      obtain ⟨value, rest, hvalue, ⟨⟩⟩ := hs
      have hname := spells_of_scanString hname
      exact .named hname (hasText_textOf? hname) (hcolon ▸ gap_skipSpace t) (gap_skipSpace u)
        (hitem hvalue)
    next => cases hs
  next => cases hs

theorem spells_of_scanFields {item : Scan Value}
    (hitem : ∀ {s rest value}, item s = some (value, rest) → Spells s value rest)
    (hs : scanFields item fuel s = some (fields, rest)) : SpellsFields s fields rest := by
  induction fuel generalizing s fields with
  | zero => cases hs
  | succ fuel ih =>
      simp only [scanFields, Option.bind_eq_bind, Option.bind_eq_some_iff, Prod.exists] at hs
      obtain ⟨name, value, t, hfield, hs⟩ := hs
      split at hs
      next u hcomma =>
        simp only [Option.bind_eq_some_iff, Prod.exists] at hs
        obtain ⟨fields, rest, hfields, ⟨⟩⟩ := hs
        exact .more (spells_of_scanField hitem hfield) (hcomma ▸ gap_skipSpace t)
          (gap_skipSpace u) (ih hfields)
      next hclose =>
        cases hs
        exact .last (spells_of_scanField hitem hfield) (hclose ▸ gap_skipSpace t)
      next => cases hs

theorem spells_of_scanValue (hs : scanValue depth s = some (value, rest)) :
    Spells s value rest := by
  induction depth using Nat.strongRecOn generalizing s value rest with
  | ind depth ih =>
    unfold scanValue at hs
    split at hs
    next s =>
      simp only [Option.map_eq_some_iff, Prod.exists] at hs
      obtain ⟨pieces, rest, hs, ⟨⟩⟩ := hs
      have hs := spells_of_scanString hs
      exact .string hs (hasText_textOf? hs)
    next =>
      cases hs
      exact .null
    next =>
      cases hs
      exact .yes
    next =>
      cases hs
      exact .no
    next s =>
      split at hs
      next => cases hs
      next depth =>
        split at hs
        next hclose =>
          cases hs
          exact .emptyArray (hclose ▸ gap_skipSpace s)
        next =>
          simp only [Option.map_eq_some_iff, Prod.exists] at hs
          obtain ⟨items, rest, hs, ⟨⟩⟩ := hs
          exact .array (gap_skipSpace s) (spells_of_scanItems (ih depth (Nat.lt_succ_self _)) hs)
    next s =>
      split at hs
      next => cases hs
      next depth =>
        split at hs
        next hclose =>
          cases hs
          exact .emptyObject (hclose ▸ gap_skipSpace s)
        next =>
          simp only [Option.map_eq_some_iff, Prod.exists] at hs
          obtain ⟨fields, rest, hs, ⟨⟩⟩ := hs
          exact .object (gap_skipSpace s) (spells_of_scanFields (ih depth (Nat.lt_succ_self _)) hs)
    next =>
      simp only [Option.map_eq_some_iff, Prod.exists] at hs
      obtain ⟨literal, rest, hs, ⟨⟩⟩ := hs
      obtain ⟨rfl, hliteral⟩ := isNumber_of_scanNumber hs
      exact .number hliteral

/-! ## Whole texts -/

variable {bytes : Bytes}

theorem Gap.nil_of_skipSpace (hs : (skipSpace s).isEmpty) : Gap s [] := by
  have hgap := gap_skipSpace s
  rwa [List.isEmpty_iff.mp hs] at hgap

/-- A value is read off the front, and has to be all that there is. -/
theorem read?_of_spells (hgap : Gap (Text.decodeBytes bytes) s) (hs : Spells s value rest)
    (hrest : ∀ literal, value = .number literal → Ends isNumeric rest) :
    read? bytes = if (skipSpace rest).isEmpty then some value else none := by
  simp only [read?, hgap.skipSpace_of_begins hs.begins,
    scanValue_of_spells hs (Nat.le_refl _) hrest]

theorem read?_of_holds (hholds : Holds bytes value) : read? bytes = some value := by
  obtain ⟨s, rest, hgap, hs, hend⟩ := hholds
  have hrest : Ends isNumeric rest := hend.ends (by rintro _ ⟨⟩)
  rw [read?_of_spells hgap hs fun _ _ => hrest, hend.skipSpace_eq]
  rfl

/-- The texts that are read are those that hold a value. -/
theorem read?_eq_some_iff : read? bytes = some value ↔ Holds bytes value := by
  constructor
  · intro hread
    simp only [read?] at hread
    split at hread
    next value' rest hs =>
      simp only [Option.ite_none_right_eq_some, Option.some.injEq] at hread
      obtain ⟨hend, rfl⟩ := hread
      exact ⟨_, rest, gap_skipSpace _, spells_of_scanValue hs, Gap.nil_of_skipSpace hend⟩
    next => cases hread
  · exact read?_of_holds

/-- Behind an array stands nothing but blanks. -/
theorem read?_of_trailing (hgap : Gap (Text.decodeBytes bytes) s)
    (hs : Spells s (.array items) rest) (hc : c ∈ rest) (hblank : isSpace c = false) :
    read? bytes = none := by
  rw [read?_of_spells hgap hs (by rintro _ ⟨⟩), if_neg]
  rw [List.isEmpty_iff, skipSpace, List.dropWhile_eq_nil_iff]
  intro hall
  rw [hall c hc] at hblank
  cases hblank

end WakeRouter.Json
