import Mathlib.Data.List.Forall2
import WakeRouter.Proofs.Json.Grammar
import WakeRouter.Proofs.Text.Utf8

/-!
# Reading strings

A string is read in two goes: first its parts, of which an escape may give a code unit, and then
the characters that the units make.  Both follow the grammar, so a string has one text at most.
-/

namespace WakeRouter

/-- A list is read if each of its members is, one by one. -/
theorem mapM_eq_some_iff {α β : Type} {f : α → Option β} {l : List α} {l' : List β} :
    l.mapM f = some l' ↔ List.Forall₂ (fun a b => f a = some b) l l' := by
  induction l generalizing l' with
  | nil => simp [eq_comm]
  | cons a l ih =>
      simp only [List.mapM_cons, Option.bind_eq_bind, Option.bind_eq_some_iff, Option.pure_def,
        Option.some.injEq, List.forall₂_cons_left_iff, ih]
      constructor
      · rintro ⟨b, hb, l', hl', rfl⟩
        exact ⟨b, l', hb, hl', rfl⟩
      · rintro ⟨b, l', hb, hl', rfl⟩
        exact ⟨b, hb, l', hl', rfl⟩

namespace Json

open Reader

variable {n : Nat} {s rest symbols : Symbols} {pieces : List Piece}

/-! ## Parts -/

theorem hexValue?_lt {c : Char} (hn : Text.hexValue? c = some n) : n < 16 := by
  simp only [Text.hexValue?, Char.reduceToNat] at hn
  split at hn
  · cases hn
    omega
  split at hn
  · cases hn
    omega
  split at hn
  · cases hn
    omega
  · cases hn

theorem hex?_of_hexValue? {a b c d : Char} {w x y z : Nat} (ha : Text.hexValue? a = some w)
    (hb : Text.hexValue? b = some x) (hc : Text.hexValue? c = some y)
    (hd : Text.hexValue? d = some z) :
    hex? [some a, some b, some c, some d] = some (0x1000 * w + 0x100 * x + 0x10 * y + z) := by
  simp only [hex?, List.foldlM_cons, List.foldlM_nil, ha, hb, hc, hd, Option.bind_eq_bind,
    Option.bind_some, Option.pure_def, Option.some.injEq]
  omega

theorem exists_of_hex? {a b c d : Option Char} (hn : hex? [a, b, c, d] = some n) :
    ∃ a' b' c' d' w x y z, a = some a' ∧ b = some b' ∧ c = some c' ∧ d = some d' ∧
      Text.hexValue? a' = some w ∧ Text.hexValue? b' = some x ∧ Text.hexValue? c' = some y ∧
      Text.hexValue? d' = some z ∧ n = 0x1000 * w + 0x100 * x + 0x10 * y + z := by
  simp only [hex?, List.foldlM_cons, List.foldlM_nil, Option.bind_eq_bind, Option.pure_def,
    Option.bind_eq_some_iff, Option.some.injEq] at hn
  obtain ⟨_, ⟨a', ha, w, hw, rfl⟩, _, ⟨b', hb, x, hx, rfl⟩, _, ⟨c', hc, y, hy, rfl⟩,
    _, ⟨d', hd, z, hz, rfl⟩, rfl⟩ := hn
  exact ⟨a', b', c', d', w, x, y, z, ha, hb, hc, hd, hw, hx, hy, hz, by omega⟩

theorem scanString_of_spells (hs : SpellsString s pieces rest) :
    scanString s = some (pieces, rest) := by
  induction hs with
  | close => simp [scanString]
  | @literal c s rest pieces hquote hescape hcontrol _ ih =>
      have hall : c.all (0x20 ≤ ·.toNat) := by
        cases c with
        | none => rfl
        | some x => simpa using hcontrol x rfl
      rw [scanString]
      · simp [hescape, hall, ih]
      · exact hquote
      · intro _ _ _ _ _ hbackslash
        exact absurd hbackslash hescape
      · intro _ _ hbackslash
        exact absurd hbackslash hescape
  | @short c x s rest pieces hc _ ih =>
      have hu : c ≠ 'u' := by
        rintro rfl
        cases hc
      rw [scanString]
      · simp [hc, ih]
      · intro _ _ _ _ _ hunit
        exact absurd (Option.some.inj hunit) hu
  | unit ha hb hc hd _ ih => simp [scanString, hex?_of_hexValue? ha hb hc hd, ih]

theorem spells_of_scanString (hs : scanString s = some (pieces, rest)) :
    SpellsString s pieces rest := by
  fun_induction scanString s generalizing pieces rest with
  | case1 => cases hs
  | case2 =>
      cases hs
      exact .close
  | case3 a b c d s ih =>
      simp only [Option.bind_eq_bind, Option.bind_eq_some_iff, Prod.exists] at hs
      obtain ⟨n, hn, pieces, rest, hs, ⟨⟩⟩ := hs
      obtain ⟨_, _, _, _, _, _, _, _, rfl, rfl, rfl, rfl, ha, hb, hc, hd, rfl⟩ := exists_of_hex? hn
      exact .unit ha hb hc hd (ih hs)
  | case4 c s _ ih =>
      simp only [Option.bind_eq_bind, Option.bind_eq_some_iff, Prod.exists] at hs
      obtain ⟨c, rfl, x, hx, pieces, rest, hs, ⟨⟩⟩ := hs
      exact .short hx (ih hs)
  | case5 c s hquote _ _ hplain ih =>
      simp only [Option.bind_eq_bind, Option.bind_eq_some_iff, Prod.exists] at hs
      obtain ⟨pieces, rest, hs, ⟨⟩⟩ := hs
      simp only [Bool.and_eq_true, bne_iff_ne] at hplain
      refine .literal hquote hplain.1 ?_ (ih hs)
      rintro x rfl
      simpa using hplain.2
  | case6 => cases hs

/-- An escape gives sixteen bits. -/
theorem SpellsString.unit_lt (hs : SpellsString s pieces rest) :
    ∀ n, .unit n ∈ pieces → n < 0x10000 := by
  induction hs with
  | close => simp
  | literal _ _ _ _ ih | short _ _ ih => simpa using ih
  | unit ha hb hc hd _ ih =>
      have := hexValue?_lt ha
      have := hexValue?_lt hb
      have := hexValue?_lt hc
      have := hexValue?_lt hd
      rintro n hn
      rcases List.mem_cons.mp hn with hn | hn
      · obtain rfl := Piece.unit.inj hn
        omega
      · exact ih n hn

/-! ## Code units -/

theorem toNat_ofNat_of_isValidChar (hn : n.isValidChar) : (Char.ofNat n).toNat = n := by
  rw [Char.ofNat, dif_pos hn]
  rfl

theorem isHigh_iff : isHigh n ↔ 0xd800 ≤ n ∧ n < 0xdc00 := by
  simp [isHigh]

theorem isLow_iff : isLow n ↔ 0xdc00 ≤ n ∧ n < 0xe000 := by
  simp [isLow]

theorem isHigh_highUnit {c : Char} (hc : 0x10000 ≤ c.toNat) : isHigh (highUnit c) := by
  have := Text.toNat_lt_or c
  rw [isHigh_iff, highUnit]
  omega

theorem isLow_lowUnit (c : Char) : isLow (lowUnit c) := by
  rw [isLow_iff, lowUnit]
  omega

theorem joinUnits_units {c : Char} (hc : 0x10000 ≤ c.toNat) :
    joinUnits (highUnit c) (lowUnit c) = c := by
  have hback : 0x10000 + (highUnit c - 0xd800) * 0x400 + (lowUnit c - 0xdc00) = c.toNat := by
    simp only [highUnit, lowUnit]
    omega
  rw [joinUnits, hback, Char.ofNat_toNat]

/-- Two units that fit are those of one character. -/
theorem exists_units {high low : Nat} (hhigh : isHigh high) (hlow : isLow low) :
    ∃ c : Char, 0x10000 ≤ c.toNat ∧ high = highUnit c ∧ low = lowUnit c := by
  rw [isHigh_iff] at hhigh
  rw [isLow_iff] at hlow
  have hpoint : (joinUnits high low).toNat =
      0x10000 + (high - 0xd800) * 0x400 + (low - 0xdc00) :=
    toNat_ofNat_of_isValidChar (.inr (by omega))
  refine ⟨joinUnits high low, ?_, ?_, ?_⟩
  · omega
  · rw [highUnit, hpoint]
    omega
  · rw [lowUnit, hpoint]
    omega

theorem charOf?_toNat (c : Char) : charOf? c.toNat = some c := by
  have := Text.toNat_lt_or c
  have hwhole : ¬(isHigh c.toNat || isLow c.toNat) := by
    rw [Bool.or_eq_true, isHigh_iff, isLow_iff]
    omega
  rw [charOf?, if_neg hwhole, Char.ofNat_toNat]

theorem charOf?_of_half (hn : 0xd800 ≤ n ∧ n < 0xe000) : charOf? n = none := by
  refine if_pos ?_
  rw [Bool.or_eq_true, isHigh_iff, isLow_iff]
  omega

/-- A unit that does not go with the next piece is read by itself. -/
theorem joinPieces_unit (halone : ∀ low rest, pieces = .unit low :: rest → isHigh n →
    isLow low = false) : joinPieces (.unit n :: pieces) = charOf? n :: joinPieces pieces := by
  cases pieces with
  | nil => rfl
  | cons piece pieces =>
      cases piece with
      | symbol => rfl
      | unit low =>
          rw [joinPieces, if_neg]
          simpa using halone low pieces rfl

theorem joinPieces_of_denotes (hs : Denotes pieces symbols) : joinPieces pieces = symbols := by
  induction hs with
  | nothing => rfl
  | symbol _ ih => rw [joinPieces, ih]
  | @single c pieces s hc _ ih =>
      rw [joinPieces_unit, charOf?_toNat, ih]
      intro low rest _ hhigh
      have := Text.toNat_lt_or c
      rw [isHigh_iff] at hhigh
      omega
  | pair hc _ ih =>
      rw [joinPieces, if_pos (by simp [isHigh_highUnit hc, isLow_lowUnit]), joinUnits_units hc, ih]
  | half hn halone _ ih =>
      rw [joinPieces_unit, charOf?_of_half hn, ih]
      intro low rest hpieces hhigh
      cases hlow : isLow low with
      | false => rfl
      | true =>
          obtain ⟨c, hc, hhigh, hlow⟩ := exists_units hhigh hlow
          exact absurd (hlow ▸ hpieces) (halone c rest hc hhigh)

theorem denotes_unit (hn : n < 0x10000) (halone : ∀ low rest, pieces = .unit low :: rest →
    isHigh n → isLow low = false) (hs : Denotes pieces symbols) :
    Denotes (.unit n :: pieces) (charOf? n :: symbols) := by
  by_cases hhalf : 0xd800 ≤ n ∧ n < 0xe000
  · rw [charOf?_of_half hhalf]
    refine .half hhalf ?_ hs
    rintro c rest hc rfl hpieces
    have hlow := halone _ rest hpieces (isHigh_highUnit hc)
    rw [isLow_lowUnit] at hlow
    cases hlow
  · have hpoint : (Char.ofNat n).toNat = n :=
      toNat_ofNat_of_isValidChar (by unfold Nat.isValidChar; omega)
    have hsingle : Denotes (.unit (Char.ofNat n).toNat :: pieces)
        (some (Char.ofNat n) :: symbols) := .single (by omega) hs
    rwa [← charOf?_toNat, hpoint] at hsingle

theorem denotes_joinPieces (hunits : ∀ n, .unit n ∈ pieces → n < 0x10000) :
    Denotes pieces (joinPieces pieces) := by
  fun_induction joinPieces pieces with
  | case1 => exact .nothing
  | case2 c pieces ih => exact .symbol (ih fun n hn => hunits n (List.mem_cons_of_mem _ hn))
  | case3 high low pieces hpair ih =>
      rw [Bool.and_eq_true] at hpair
      obtain ⟨c, hc, hhigh, hlow⟩ := exists_units hpair.1 hpair.2
      rw [hhigh, hlow, joinUnits_units hc]
      exact .pair hc (ih fun n hn => hunits n (by simp [hn]))
  | case4 high low pieces hpair ih =>
      refine denotes_unit (hunits high List.mem_cons_self) ?_
        (ih fun n hn => hunits n (List.mem_cons_of_mem _ hn))
      rintro _ _ ⟨⟩ hhigh
      simpa [hhigh] using hpair
  | case5 n pieces hlast ih =>
      refine denotes_unit (hunits n List.mem_cons_self) ?_
        (ih fun n hn => hunits n (List.mem_cons_of_mem _ hn))
      intro low rest hpieces
      exact absurd hpieces (hlast low rest)

/-! ## Texts -/

theorem mapM_id_eq_some_iff {chars : List Char} :
    symbols.mapM id = some chars ↔ symbols = chars.map some := by
  rw [mapM_eq_some_iff, ← List.forall₂_eq_eq_eq, List.forall₂_map_right_iff]
  rfl

theorem mapM_id_eq_none_iff : symbols.mapM id = none ↔ none ∈ symbols := by
  induction symbols with
  | nil => simp
  | cons c symbols ih =>
      cases c with
      | none => simp
      | some c =>
          rw [List.mem_cons, ← ih]
          cases hsymbols : symbols.mapM id <;> simp [hsymbols]

theorem textOf?_of_hasText {text? : Option String} (htext : HasText pieces text?) :
    textOf? pieces = text? := by
  obtain ⟨symbols, hsymbols, htext⟩ := htext
  rw [textOf?, joinPieces_of_denotes hsymbols]
  cases text? with
  | none => rw [mapM_id_eq_none_iff.mpr htext, Option.map_none]
  | some text => rw [mapM_id_eq_some_iff.mpr htext, Option.map_some, String.ofList_toList]

theorem hasText_textOf? (hs : SpellsString s pieces rest) : HasText pieces (textOf? pieces) := by
  refine ⟨_, denotes_joinPieces hs.unit_lt, ?_⟩
  cases htext : (joinPieces pieces).mapM id with
  | none =>
      rw [textOf?, htext]
      exact mapM_id_eq_none_iff.mp htext
  | some chars =>
      rw [textOf?, htext]
      simpa using mapM_id_eq_some_iff.mp htext

end Json

end WakeRouter
