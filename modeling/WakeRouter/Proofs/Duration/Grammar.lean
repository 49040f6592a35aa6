import Mathlib.Data.List.Induction
import WakeRouter.Proofs.Duration

/-!
# How durations are written

A written duration is a number, blanks and a unit, or a number alone, which counts seconds.  The
reader tries the units one after the other, from the end of the text, and one of them is the end
of another; here every text that it reads is found to be such a phrase, and no text to be two of
them.  What a duration is written as is read as that duration again.
-/

namespace WakeRouter

namespace Text

variable {s digits : List Char} {c : Char} {n d bound : Nat}

/-! ## Numbers -/

/-- The number that decimal digits stand for, the last of which counts ones. -/
inductive Denotes : List Char → Nat → Prop
  | digit {d : Nat} (hd : d < 10) : Denotes [Nat.digitChar d] d
  | snoc {digits : List Char} {n d : Nat} (hdigits : Denotes digits n) (hd : d < 10) :
      Denotes (digits ++ [Nat.digitChar d]) (10 * n + d)

theorem digitValue_digitChar (hd : d < 10) : digitValue (Nat.digitChar d) = d :=
  Nat.toNat_digitChar_sub_48_of_lt_ten hd

theorem exists_digitChar_eq (hc : c.isDigit) : ∃ d < 10, Nat.digitChar d = c := by
  obtain ⟨hlow, hhigh⟩ := Char.isDigit_iff_toNat.mp hc
  simp only [Char.reduceToNat] at hlow hhigh
  have hd : c.toNat - 48 < 10 := by omega
  refine ⟨c.toNat - 48, hd, Char.toNat_inj.mp ?_⟩
  rw [Nat.toNat_digitChar_of_lt_ten hd, Nat.add_sub_cancel' hlow]

theorem digitsValue_concat (acc : Nat) (s : List Char) (c : Char) :
    digitsValue acc (s ++ [c]) = 10 * digitsValue acc s + digitValue c := by
  simp [digitsValue]

theorem denotes_iff :
    Denotes s n ↔ s ≠ [] ∧ (∀ c ∈ s, c.isDigit) ∧ digitsValue 0 s = n := by
  constructor
  · intro hs
    induction hs with
    | digit hd => simp [digitsValue, Nat.isDigit_digitChar, hd, digitValue_digitChar hd]
    | snoc _ hd ih =>
      obtain ⟨-, hdigits, rfl⟩ := ih
      refine ⟨by simp, ?_, ?_⟩
      · simpa [or_imp, forall_and, Nat.isDigit_digitChar, hd] using hdigits
      · rw [digitsValue_concat, digitValue_digitChar hd]
  · rintro ⟨hne, hdigits, rfl⟩
    induction s using List.reverseRecOn with
    | nil => exact absurd rfl hne
    | append_singleton s c ih =>
      obtain ⟨d, hd, rfl⟩ := exists_digitChar_eq (hdigits c (by simp))
      cases s with
      | nil => simpa [digitsValue, digitValue_digitChar hd] using Denotes.digit hd
      | cons first rest =>
        have hfront := ih (by simp) fun c hc => hdigits c (List.mem_append_left _ hc)
        rw [digitsValue_concat, digitValue_digitChar hd]
        exact .snoc hfront hd

theorem digit_of_denotes (hs : Denotes s n) (hc : c ∈ s) : c.isDigit :=
  (denotes_iff.mp hs).2.1 c hc

/-- A number is one or more digits, with or without a sign in front. -/
theorem readNumber?_eq_some_iff : readNumber? bound s = some n ↔
    ∃ digits, (s = digits ∨ s = '+' :: digits) ∧ Denotes digits n ∧ n < bound := by
  have hdigits : ∀ digits : List Char,
      (if digits.isEmpty || !digits.all Char.isDigit then none
        else if digitsValue 0 digits < bound then some (digitsValue 0 digits) else none) = some n ↔
      Denotes digits n ∧ n < bound := by
    intro digits
    rw [denotes_iff]
    simp only [Option.ite_none_left_eq_some, Option.ite_none_right_eq_some, Option.some.injEq,
      Bool.or_eq_true, not_or, List.isEmpty_iff, Bool.not_eq_true', Bool.not_eq_false,
      List.all_eq_true]
    constructor
    · rintro ⟨⟨hne, hall⟩, hlt, rfl⟩
      exact ⟨⟨hne, hall, rfl⟩, hlt⟩
    · rintro ⟨⟨hne, hall, rfl⟩, hlt⟩
      exact ⟨⟨hne, hall⟩, hlt, rfl⟩
  unfold readNumber?
  split
  next r =>
    rw [hdigits]
    constructor
    · exact fun hr => ⟨r, .inr rfl, hr⟩
    · rintro ⟨digits, rfl | hsign, hdenotes, hlt⟩
      · exact absurd (digit_of_denotes hdenotes List.mem_cons_self) (by decide)
      · exact List.cons.inj hsign |>.2 ▸ ⟨hdenotes, hlt⟩
  next hplain =>
    rw [hdigits]
    constructor
    · exact fun hs => ⟨s, .inl rfl, hs⟩
    · rintro ⟨digits, rfl | hsign, hdenotes, hlt⟩
      · exact ⟨hdenotes, hlt⟩
      · exact absurd hsign (hplain digits)

end Text

namespace Duration

open Text (Denotes isBlank)

/-! ## Phrases -/

inductive TimeUnit
  | millis
  | seconds
  | minutes
  | hours

def TimeUnit.letters : TimeUnit → List Char
  | .millis => ['m', 's']
  | .seconds => ['s']
  | .minutes => ['m']
  | .hours => ['h']

/-- The parts of a written duration. -/
structure Phrase where
  plus : Bool
  digits : List Char
  blanks : List Char
  unit? : Option TimeUnit

/-- The duration that a number of units is. -/
inductive Measures : Option TimeUnit → Nat → Duration → Prop
  | alone (n : Nat) : Measures none n (ofSeconds n)
  | millis (n : Nat) : Measures (some .millis) n (ofMillis n)
  | seconds (n : Nat) : Measures (some .seconds) n (ofSeconds n)
  | minutes {n : Nat} (hn : 60 * n < 2 ^ 64) : Measures (some .minutes) n (ofSeconds (60 * n))
  | hours {n : Nat} (hn : 3600 * n < 2 ^ 64) : Measures (some .hours) n (ofSeconds (3600 * n))

namespace Phrase

def number (p : Phrase) : List Char :=
  if p.plus then '+' :: p.digits else p.digits

def unitText (p : Phrase) : List Char :=
  match p.unit? with
  | some u => u.letters
  | none => []

def text (p : Phrase) : List Char :=
  p.number ++ (p.blanks ++ p.unitText)

structure IsProper (p : Phrase) : Prop where
  digits : p.digits ≠ []
  digit : ∀ c ∈ p.digits, c.isDigit
  blank : ∀ c ∈ p.blanks, isBlank c
  alone : p.unit? = none → p.blanks = []

/-- The text is the phrase with blanks around it, or without. -/
def IsIn (p : Phrase) (text : List Char) : Prop :=
  p.IsProper ∧ ∃ left right, text = left ++ p.text ++ right ∧ ∀ c ∈ left ++ right, isBlank c

/-- The duration that the phrase says. -/
def Says (p : Phrase) (d : Duration) : Prop :=
  ∃ n, Denotes p.digits n ∧ n < 2 ^ 64 ∧ Measures p.unit? n d

variable {p q : Phrase}

theorem getLast?_number (hp : p.IsProper) {c : Char} (hc : p.number.getLast? = some c) :
    c.isDigit := by
  have hlast : p.number.getLast? = p.digits.getLast? := by
    unfold number
    split
    · cases hdigits : p.digits with
      | nil => exact absurd hdigits hp.digits
      | cons first rest => rfl
    · rfl
  rw [hlast] at hc
  exact hp.digit c (List.mem_of_getLast? hc)

theorem number_ne_nil (hp : p.IsProper) : p.number ≠ [] := by
  unfold number
  split
  · simp
  · exact hp.digits

theorem isBlank_of_head?_number (hp : p.IsProper) {c : Char} (hc : p.number.head? = some c) :
    isBlank c = false := by
  unfold number at hc
  split at hc
  · cases hc
    decide
  · exact Text.isBlank_of_isDigit (hp.digit c (List.mem_of_mem_head? hc))

/-- Blanks behind the number do not belong to it. -/
theorem trim_number_append (hp : p.IsProper) : Text.trim (p.number ++ p.blanks) = p.number := by
  have hblank : ∀ c ∈ [] ++ p.blanks, isBlank c := hp.blank
  exact Text.trim_padded hblank (fun _ => isBlank_of_head?_number hp)
    fun _ hc => Text.isBlank_of_isDigit (getLast?_number hp hc)

theorem stops_isDigit (hp : p.IsProper) : Text.Stops Char.isDigit (p.blanks ++ p.unitText) := by
  intro c hc
  rw [List.head?_append] at hc
  cases hblank : p.blanks.head? with
  | some first =>
    rw [hblank, Option.some_or] at hc
    cases hc
    cases hdigit : c.isDigit with
    | false => rfl
    | true =>
      have hclear := Text.isBlank_of_isDigit hdigit
      rw [hp.blank c (List.mem_of_mem_head? hblank)] at hclear
      cases hclear
  | none =>
    rw [hblank, Option.none_or] at hc
    unfold unitText at hc
    split at hc
    next u _ =>
      cases u <;> cases hc <;> rfl
    next => cases hc

theorem stops_isBlank (p : Phrase) : Text.Stops isBlank p.unitText := by
  unfold unitText
  split
  next u _ => cases u <;> exact Text.stops_cons (by decide)
  next => exact Text.stops_nil

theorem unit?_inj (hunit : p.unitText = q.unitText) : p.unit? = q.unit? := by
  unfold unitText at hunit
  cases hp : p.unit? with
  | none =>
    cases hq : q.unit? with
    | none => rfl
    | some u =>
      rw [hp, hq] at hunit
      cases u <;> cases hunit
  | some u =>
    cases hq : q.unit? with
    | none =>
      rw [hp, hq] at hunit
      cases u <;> cases hunit
    | some v =>
      rw [hp, hq] at hunit
      cases u <;> cases v <;> first | rfl | cases hunit

/-- From left to right, each part of a phrase ends where the next one can begin. -/
theorem text_inj (hp : p.IsProper) (hq : q.IsProper) (htext : p.text = q.text) : p = q := by
  have hsign : ∀ {p : Phrase}, p.IsProper → (p.text.head? = some '+' ↔ p.plus) := by
    intro p hp
    obtain ⟨first, rest, hcons⟩ := List.exists_cons_of_ne_nil hp.digits
    unfold text number
    cases p.plus with
    | true => simp
    | false =>
      have hdigit := hp.digit first (by simp [hcons])
      have hne : first ≠ '+' := by
        rintro rfl
        cases hdigit
      simp [hcons, hne]
  have hplus : p.plus = q.plus := by
    rw [Bool.eq_iff_iff, ← hsign hp, ← hsign hq, htext]
  have hafter : p.digits ++ (p.blanks ++ p.unitText) = q.digits ++ (q.blanks ++ q.unitText) := by
    unfold text number at htext
    rw [← hplus] at htext
    cases hcase : p.plus with
    | true => simpa [hcase] using htext
    | false => simpa [hcase] using htext
  have hdigits : p.digits = q.digits := by
    rw [← Text.takeWhile_append_of_stops hp.digit (stops_isDigit hp), hafter,
      Text.takeWhile_append_of_stops hq.digit (stops_isDigit hq)]
  have hrest : p.blanks ++ p.unitText = q.blanks ++ q.unitText := by
    rw [hdigits] at hafter
    exact List.append_cancel_left hafter
  have hblanks : p.blanks = q.blanks := by
    rw [← Text.takeWhile_append_of_stops hp.blank (stops_isBlank p), hrest,
      Text.takeWhile_append_of_stops hq.blank (stops_isBlank q)]
  have hunit : p.unit? = q.unit? := by
    rw [hblanks] at hrest
    exact unit?_inj (List.append_cancel_left hrest)
  cases p
  cases q
  simp_all

theorem trim_text (hp : p.IsProper) {left right : List Char}
    (hblank : ∀ c ∈ left ++ right, isBlank c) : Text.trim (left ++ p.text ++ right) = p.text := by
  apply Text.trim_padded hblank
  · intro c hc
    obtain ⟨first, rest, hcons⟩ := List.exists_cons_of_ne_nil (number_ne_nil hp)
    refine isBlank_of_head?_number hp ?_
    rw [text, hcons] at hc
    rw [hcons]
    exact hc
  · intro c hc
    rw [text, List.getLast?_append, List.getLast?_append] at hc
    unfold unitText at hc
    cases hunit : p.unit? with
    | some u =>
      rw [hunit] at hc
      cases u <;> cases hc <;> decide
    | none =>
      rw [hunit, hp.alone hunit] at hc
      exact Text.isBlank_of_isDigit (getLast?_number hp hc)

end Phrase

/-! ## Reading -/

section Reading

variable {text front : List Char} {d : Duration}

/-- The duration that a number of units is, as the reader has it. -/
def scale : Option TimeUnit → Nat → Option Duration
  | none, n => some (ofSeconds n)
  | some .millis, n => some (ofMillis n)
  | some .seconds, n => some (ofSeconds n)
  | some .minutes, n => ofUnits? 60 n
  | some .hours, n => ofUnits? 3600 n

theorem ofUnits?_eq_some_iff {seconds n : Nat} :
    ofUnits? seconds n = some d ↔ seconds * n < 2 ^ 64 ∧ ofSeconds (seconds * n) = d := by
  have hbound : numberBound = 2 ^ 64 := rfl
  rw [ofUnits?, Option.ite_none_right_eq_some, Option.some.injEq, hbound, Nat.mul_comm n]

theorem scale_eq_some_iff {unit? : Option TimeUnit} {n : Nat} :
    scale unit? n = some d ↔ Measures unit? n d := by
  constructor
  · intro hscale
    match unit?, hscale with
    | none, rfl => exact .alone n
    | some .millis, rfl => exact .millis n
    | some .seconds, rfl => exact .seconds n
    | some .minutes, hscale =>
      obtain ⟨hn, rfl⟩ := ofUnits?_eq_some_iff.mp hscale
      exact .minutes hn
    | some .hours, hscale =>
      obtain ⟨hn, rfl⟩ := ofUnits?_eq_some_iff.mp hscale
      exact .hours hn
  · intro hmeasures
    cases hmeasures with
    | alone | millis | seconds => rfl
    | minutes hn => exact ofUnits?_eq_some_iff.mpr ⟨hn, rfl⟩
    | hours hn => exact ofUnits?_eq_some_iff.mpr ⟨hn, rfl⟩

/-- The unit that the reader finds: the first of them, in its order, that the text ends in. -/
inductive Ends : List Char → Option TimeUnit → List Char → Prop
  | unit (u : TimeUnit) {front : List Char}
      (hlast : u = .seconds → front.getLast? ≠ some 'm') : Ends (front ++ u.letters) (some u) front
  | alone {s : List Char} (hlast : ∀ c ∈ ['s', 'm', 'h'], s.getLast? ≠ some c) : Ends s none s

theorem dropSuffix?_of_last {s unit : List Char} {c : Char} (hunit : unit.getLast? = some c)
    (hlast : s.getLast? ≠ some c) : Text.dropSuffix? unit s = none := by
  rw [Option.eq_none_iff_forall_not_mem]
  intro r hr
  rw [Option.mem_def, Text.dropSuffix?_eq_some_iff] at hr
  refine hlast ?_
  rw [hr, List.getLast?_append, hunit, Option.some_or]

theorem dropSuffix?_millis_concat (hlast : front.getLast? ≠ some 'm') :
    Text.dropSuffix? ['m', 's'] (front ++ ['s']) = none := by
  rw [Option.eq_none_iff_forall_not_mem]
  intro r hr
  rw [Option.mem_def, Text.dropSuffix?_eq_some_iff] at hr
  have hsplit : front ++ ['s'] = (r ++ ['m']) ++ ['s'] := by simpa using hr
  refine hlast ?_
  rw [List.append_cancel_right hsplit, List.getLast?_concat]

theorem exists_ends (s : List Char) : ∃ unit? front, Ends s unit? front := by
  have hconcat : ∀ c, s.getLast? = some c → ∃ front, s = front ++ [c] :=
    fun c hc => List.getLast?_eq_some_iff.mp hc
  by_cases hs : s.getLast? = some 's'
  · obtain ⟨front, rfl⟩ := hconcat 's' hs
    by_cases hm : front.getLast? = some 'm'
    · obtain ⟨number, rfl⟩ := List.getLast?_eq_some_iff.mp hm
      rw [List.append_assoc]
      exact ⟨_, number, .unit .millis (by simp)⟩
    · exact ⟨_, front, .unit .seconds fun _ => hm⟩
  by_cases hm : s.getLast? = some 'm'
  · obtain ⟨front, rfl⟩ := hconcat 'm' hm
    exact ⟨_, front, .unit .minutes (by simp)⟩
  by_cases hh : s.getLast? = some 'h'
  · obtain ⟨front, rfl⟩ := hconcat 'h' hh
    exact ⟨_, front, .unit .hours (by simp)⟩
  · exact ⟨none, s, .alone (by simp [hs, hm, hh])⟩

theorem read?_of_ends {unit? : Option TimeUnit} (hends : Ends (Text.trim text) unit? front) :
    read? text = (Text.readNumber? numberBound (Text.trim front)).bind (scale unit?) := by
  have hdrop : ∀ unit front : List Char, Text.dropSuffix? unit (front ++ unit) = some front :=
    fun _ _ => Text.dropSuffix?_eq_some_iff.mpr rfl
  have hmap : ∀ (number : Option Nat) (f : Nat → Duration),
      number.map f = number.bind fun n => some (f n) := by
    intro number f
    cases number <;> rfl
  -- The text has no blanks at its ends; a number alone need not be trimmed for itself.
  have htwice := Text.trim_trim text
  unfold read?
  generalize Text.trim text = s at hends htwice
  cases hends with
  | unit u hlast =>
    cases u with
    | millis =>
      simp only [TimeUnit.letters, hdrop, hmap]
      rfl
    | seconds =>
      simp only [TimeUnit.letters, dropSuffix?_millis_concat (hlast rfl), hdrop, hmap]
      rfl
    | minutes =>
      have hother : ∀ unit : List Char, unit.getLast? = some 's' →
          Text.dropSuffix? unit (front ++ ['m']) = none :=
        fun _ hunit => dropSuffix?_of_last hunit (by simp)
      simp only [TimeUnit.letters, hother ['m', 's'] rfl, hother ['s'] rfl, hdrop]
      rfl
    | hours =>
      have hother : ∀ (unit : List Char) (c : Char), unit.getLast? = some c → c ≠ 'h' →
          Text.dropSuffix? unit (front ++ ['h']) = none :=
        fun _ _ hunit hc => dropSuffix?_of_last hunit (by simpa using hc.symm)
      have hseconds := hother ['s'] 's' rfl (by decide)
      have hminutes := hother ['m'] 'm' rfl (by decide)
      simp only [TimeUnit.letters, hother ['m', 's'] 's' rfl (by decide), hseconds, hminutes, hdrop]
      rfl
  | alone hlast =>
    have hother : ∀ (unit : List Char) (c : Char), unit.getLast? = some c → c ∈ ['s', 'm', 'h'] →
        Text.dropSuffix? unit front = none :=
      fun _ c hunit hc => dropSuffix?_of_last hunit (hlast c hc)
    have hminutes := hother ['m'] 'm' rfl (by simp)
    have hhours := hother ['h'] 'h' rfl (by simp)
    simp only [hother ['m', 's'] 's' rfl (by simp), hother ['s'] 's' rfl (by simp), hminutes,
      hhours, htwice, hmap]
    rfl

/-! ## Phrases and texts -/

theorem Phrase.ends {p : Phrase} (hp : p.IsProper) :
    Ends p.text p.unit? (p.number ++ p.blanks) := by
  unfold Phrase.text Phrase.unitText
  rw [← List.append_assoc]
  cases hunit : p.unit? with
  | some u =>
    refine .unit u fun _ hlast => ?_
    rw [List.getLast?_append] at hlast
    cases hblank : p.blanks.getLast? with
    | some c =>
      rw [hblank] at hlast
      cases hlast
      exact absurd (hp.blank _ (List.mem_of_getLast? hblank)) (by decide)
    | none =>
      rw [hblank] at hlast
      exact absurd (Phrase.getLast?_number hp hlast) (by decide)
  | none =>
    simp only [hp.alone hunit, List.append_nil]
    refine .alone fun c hc hlast => ?_
    have hdigit := Phrase.getLast?_number hp hlast
    simp only [List.mem_cons, List.not_mem_nil, or_false] at hc
    rcases hc with rfl | rfl | rfl <;> exact absurd hdigit (by decide)

/-- A text without blanks around it whose number can be read is a phrase. -/
theorem exists_phrase {s digits : List Char} {unit? : Option TimeUnit} {n : Nat}
    (hends : Ends s unit? front) (htrim : Text.trim s = s)
    (hsign : Text.trim front = digits ∨ Text.trim front = '+' :: digits)
    (hdigits : Denotes digits n) :
    ∃ p : Phrase, p.IsProper ∧ p.text = s ∧ p.digits = digits ∧ p.unit? = unit? := by
  have hfirst : ∀ c, s.head? = some c → isBlank c = false :=
    fun _ hc => Text.isBlank_of_head?_trim (htrim.symm ▸ hc)
  have hhead : ∀ c, front.head? = some c → s.head? = some c := by
    intro c hc
    cases hends with
    | unit u => rw [List.head?_append, hc, Option.some_or]
    | alone => exact hc
  obtain ⟨blanks, hfront, hblank⟩ :
      ∃ blanks, front = Text.trim front ++ blanks ∧ ∀ c ∈ blanks, isBlank c := by
    obtain ⟨left, right, hcut, hblank⟩ := Text.exists_blanks_trim front
    cases left with
    | nil => exact ⟨right, hcut, hblank⟩
    | cons c left =>
      have hclear := hfirst c (hhead c (by rw [hcut]; rfl))
      rw [hblank c (by simp)] at hclear
      cases hclear
  obtain ⟨plus, hplus⟩ :
      ∃ plus : Bool, (if plus then '+' :: digits else digits) = Text.trim front := by
    rcases hsign with hsign | hsign
    · exact ⟨false, hsign.symm⟩
    · exact ⟨true, hsign.symm⟩
  obtain ⟨hne, hdigit, -⟩ := Text.denotes_iff.mp hdigits
  cases hends with
  | unit u =>
    refine ⟨⟨plus, digits, blanks, some u⟩, ⟨hne, hdigit, hblank, by simp⟩, ?_, rfl, rfl⟩
    rw [Phrase.text, Phrase.number, hplus, ← List.append_assoc, ← hfront]
    rfl
  | alone =>
    refine ⟨⟨plus, digits, [], none⟩, ⟨hne, hdigit, by simp, fun _ => rfl⟩, ?_, rfl, rfl⟩
    rw [Phrase.text, Phrase.number, hplus, htrim]
    exact List.append_nil _

theorem read?_eq_some_iff : read? text = some d ↔ ∃ p : Phrase, p.IsIn text ∧ p.Says d := by
  constructor
  · intro hread
    obtain ⟨unit?, front, hends⟩ := exists_ends (Text.trim text)
    rw [read?_of_ends hends, Option.bind_eq_some_iff] at hread
    obtain ⟨n, hnumber, hscale⟩ := hread
    obtain ⟨digits, hsign, hdigits, hn⟩ := Text.readNumber?_eq_some_iff.mp hnumber
    obtain ⟨p, hp, hphrase, rfl, rfl⟩ := exists_phrase hends (Text.trim_trim text) hsign hdigits
    obtain ⟨left, right, htext, hblank⟩ := Text.exists_blanks_trim text
    exact ⟨p, ⟨hp, left, right, hphrase.symm ▸ htext, hblank⟩, n, hdigits, hn,
      scale_eq_some_iff.mp hscale⟩
  · rintro ⟨p, ⟨hp, left, right, rfl, hblank⟩, n, hdigits, hn, hmeasures⟩
    have hends := p.ends hp
    rw [← p.trim_text hp hblank] at hends
    rw [read?_of_ends hends, p.trim_number_append hp, Option.bind_eq_some_iff]
    refine ⟨n, Text.readNumber?_eq_some_iff.mpr ⟨p.digits, ?_, hdigits, hn⟩,
      scale_eq_some_iff.mpr hmeasures⟩
    unfold Phrase.number
    cases p.plus with
    | true => exact .inr rfl
    | false => exact .inl rfl

theorem Phrase.unique {p q : Phrase} (hp : p.IsIn text) (hq : q.IsIn text) : p = q := by
  obtain ⟨hproper, left, right, rfl, hblank⟩ := hp
  obtain ⟨hproper', left', right', htext, hblank'⟩ := hq
  refine text_inj hproper hproper' ?_
  rw [← p.trim_text hproper hblank, htext, q.trim_text hproper' hblank']

/-- A text is read as what the phrase in it says, and not at all where there is none or where
its numbers are out of bounds; no text has two phrases in it; and what was read is written as a
text that is read as the same duration. -/
theorem read?_faithful :
    (∀ text d, read? text = some d ↔ ∃ p : Phrase, p.IsIn text ∧ p.Says d) ∧
    (∀ text (p q : Phrase), p.IsIn text → q.IsIn text → p = q) ∧
    ∀ text d, read? text = some d → read? d.write = some d :=
  ⟨fun _ _ => read?_eq_some_iff, fun _ _ _ => Phrase.unique,
    fun _ _ hread => read?_write (spelled_of_read? hread)⟩

/-- An hour and a half, for examples. -/
def ninetyMinutes : Phrase :=
  ⟨true, "090".toList, " ".toList, some .minutes⟩

theorem read?_faithful_ninetyMinutes :
    ninetyMinutes.IsIn "\t+090 m\n".toList ∧ ninetyMinutes.Says (ofSeconds 5400) ∧
      read? "\t+090 m\n".toList = some (ofSeconds 5400) ∧
      (∀ q : Phrase, q.IsIn "\t+090 m\n".toList → ninetyMinutes = q) ∧
      read? (ofSeconds 5400).write = some (ofSeconds 5400) := by
  obtain ⟨hiff, hunique, hwritten⟩ := read?_faithful
  have hdigit : ninetyMinutes.digits.all Char.isDigit := by decide
  have hin : ninetyMinutes.IsIn "\t+090 m\n".toList := by
    have hblank : ninetyMinutes.blanks.all isBlank := by decide
    have haround : (['\t'] ++ ['\n']).all isBlank := by decide
    refine ⟨⟨by simp [ninetyMinutes], List.all_eq_true.mp hdigit, List.all_eq_true.mp hblank,
      by simp [ninetyMinutes]⟩, ['\t'], ['\n'], by decide, List.all_eq_true.mp haround⟩
  have hsays : ninetyMinutes.Says (ofSeconds 5400) := by
    refine ⟨90, Text.denotes_iff.mpr ⟨by decide, List.all_eq_true.mp hdigit, by decide⟩,
      by decide, ?_⟩
    exact .minutes (n := 90) (by decide)
  have hread := (hiff _ _).mpr ⟨_, hin, hsays⟩
  exact ⟨hin, hsays, hread, fun q => hunique _ _ q hin, hwritten _ _ hread⟩

end Reading

end Duration

end WakeRouter
