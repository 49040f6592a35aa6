import Mathlib.Data.List.Forall2
import WakeRouter.Json.Writer
import WakeRouter.Proofs.Json.Grammar
import WakeRouter.Proofs.Text.Number
import WakeRouter.Proofs.Text.Utf8

/-!
# Written JSON follows the grammar

What is written for a text, an array or an object is a spelling of it, whatever stands behind.  A
text comes back character by character: each is escaped by itself, and none of the escapes is half
of a pair of code units.
-/

namespace WakeRouter.Json

open Reader (Piece Symbols)

/-- The characters spell the value, and need nothing behind them to do so. -/
def Writes (text : List Char) (value : Value) : Prop :=
  ∀ rest, Spells (text.map some ++ rest) value rest

variable {s rest symbols : Symbols} {pieces : List Piece}

/-! ## Strings -/

/-- A control takes four hexadecimal digits, of which the first two are zero. -/
theorem writeHex_of_control {n : Nat} (hn : n < 0x20) :
    List.replicate (4 - (Text.writeHex n).length) '0' ++ Text.writeHex n =
      ['0', '0', Nat.digitChar (n / 16), Nat.digitChar (n % 16)] := by
  have hall : ∀ n < 0x20, List.replicate (4 - (Text.writeHex n).length) '0' ++ Text.writeHex n =
      ['0', '0', Nat.digitChar (n / 16), Nat.digitChar (n % 16)] := by decide +kernel
  exact hall n hn

theorem spellsString_escape (c : Char) (hs : SpellsString s pieces rest)
    (htext : Denotes pieces symbols) :
    ∃ piece, SpellsString ((Writer.escape c).map some ++ s) (piece :: pieces) rest ∧
      Denotes (piece :: pieces) (some c :: symbols) := by
  have hshort : ∀ {e : Char}, Reader.shortEscape? e = some c → ∃ piece,
      SpellsString (some '\\' :: some e :: s) (piece :: pieces) rest ∧
        Denotes (piece :: pieces) (some c :: symbols) :=
    fun he => ⟨_, .short he hs, .symbol htext⟩
  unfold Writer.escape
  split
  all_goals try exact hshort rfl
  next hquote hescape _ _ _ _ _ =>
    split
    next hcontrol =>
      have hzero : Text.hexValue? '0' = some 0 := rfl
      have hunit := SpellsString.unit hzero hzero
        (Text.hexValue?_digitChar (d := c.toNat / 16) (by omega))
        (Text.hexValue?_digitChar (d := c.toNat % 16) (by omega)) hs
      rw [show 0x1000 * 0 + 0x100 * 0 + 0x10 * (c.toNat / 16) + c.toNat % 16 = c.toNat by omega]
        at hunit
      refine ⟨.unit c.toNat, ?_, .single (by omega) htext⟩
      rwa [List.append_assoc, writeHex_of_control hcontrol]
    next hplain =>
      refine ⟨.symbol (some c), .literal (by simpa using hquote) (by simpa using hescape) ?_ hs,
        .symbol htext⟩
      rintro _ ⟨⟩
      omega

theorem exists_pieces (text : List Char) (rest : Symbols) : ∃ pieces,
    SpellsString ((text.flatMap Writer.escape).map some ++ some '"' :: rest) pieces rest ∧
      Denotes pieces (text.map some) := by
  induction text with
  | nil => exact ⟨[], .close, .nothing⟩
  | cons c text ih =>
      obtain ⟨pieces, hs, htext⟩ := ih
      obtain ⟨piece, hs, htext⟩ := spellsString_escape c hs htext
      refine ⟨piece :: pieces, ?_, htext⟩
      rwa [List.flatMap_cons, List.map_append, List.append_assoc]

theorem exists_spellsString (text : String) (rest : Symbols) : ∃ s pieces,
    (Writer.string text).map some ++ rest = some '"' :: s ∧ SpellsString s pieces rest ∧
      HasText pieces (some text) := by
  obtain ⟨pieces, hs, htext⟩ := exists_pieces text.toList rest
  exact ⟨_, pieces, by simp [Writer.string], hs, _, htext, rfl⟩

theorem writes_string (text : String) : Writes (Writer.string text) (.string (some text)) := by
  intro rest
  obtain ⟨s, pieces, hwritten, hs, htext⟩ := exists_spellsString text rest
  rw [hwritten]
  exact .string hs htext

/-! ## Arrays and objects -/

variable {texts : List (List Char)} {values : List Value}

theorem spellsItems_intercalate (hvalues : List.Forall₂ Writes texts values) (hne : texts ≠ [])
    (rest : Symbols) :
    SpellsItems ((List.intercalate [','] texts).map some ++ some ']' :: rest) values rest := by
  induction hvalues with
  | nil => exact absurd rfl hne
  | @cons text value texts values hvalue hvalues ih =>
      cases hvalues with
      | nil =>
          have hlast := SpellsItems.last (hvalue (some ']' :: rest)) .nothing
          simpa [List.intercalate] using hlast
      | @cons next _ texts _ _ _ =>
          have hmore := SpellsItems.more (hvalue _) .nothing .nothing (ih (by simp))
          simpa [List.intercalate] using hmore

theorem writes_array (hvalues : List.Forall₂ Writes texts values) :
    Writes (Writer.array texts) (.array values) := by
  intro rest
  by_cases hne : texts = []
  · subst hne
    cases hvalues
    exact .emptyArray .nothing
  · simpa [Writer.array] using Spells.array .nothing (spellsItems_intercalate hvalues hne rest)

theorem writes_array_map {α : Type} {write : α → List Char} {valueOf : α → Value}
    (hwrite : ∀ x, Writes (write x) (valueOf x)) (l : List α) :
    Writes (Writer.array (l.map write)) (.array (l.map valueOf)) := by
  apply writes_array
  rw [List.forall₂_map_left_iff, List.forall₂_map_right_iff]
  exact List.forall₂_same.mpr fun x _ => hwrite x

/-- The field is written under its name. -/
def WritesField (written : String × List Char) (field : Option String × Value) : Prop :=
  field.1 = some written.1 ∧ Writes written.2 field.2

variable {written : List (String × List Char)} {fields : List (Option String × Value)}

theorem WritesField.spells {w : String × List Char} {field : Option String × Value}
    (hfield : WritesField w field) (rest : Symbols) :
    SpellsField ((Writer.string w.1 ++ ':' :: w.2).map some ++ rest) field rest := by
  obtain ⟨name, value⟩ := field
  obtain ⟨rfl, hvalue⟩ := hfield
  obtain ⟨s, pieces, hwritten, hs, htext⟩ :=
    exists_spellsString w.1 (some ':' :: (w.2.map some ++ rest))
  rw [List.map_append, List.append_assoc, List.map_cons, List.cons_append, hwritten]
  exact .named hs htext .nothing .nothing (hvalue rest)

theorem spellsFields_intercalate (hfields : List.Forall₂ WritesField written fields)
    (hne : written ≠ []) (rest : Symbols) :
    SpellsFields ((List.intercalate [','] (written.map fun w =>
      Writer.string w.1 ++ ':' :: w.2)).map some ++ some '\x7d' :: rest) fields rest := by
  induction hfields with
  | nil => exact absurd rfl hne
  | @cons w field written fields hfield hfields ih =>
      cases hfields with
      | nil =>
          have hlast := SpellsFields.last (hfield.spells (some '\x7d' :: rest)) .nothing
          simpa [List.intercalate] using hlast
      | cons =>
          have hmore := SpellsFields.more (hfield.spells _) .nothing .nothing (ih (by simp))
          simpa [List.intercalate] using hmore

theorem writes_object (hfields : List.Forall₂ WritesField written fields) :
    Writes (Writer.object written) (.object fields) := by
  intro rest
  by_cases hne : written = []
  · subst hne
    cases hfields
    exact .emptyObject .nothing
  · simpa [Writer.object] using Spells.object .nothing (spellsFields_intercalate hfields hne rest)

/-- A text that is written is read as the value. -/
theorem holds_of_writes {text : List Char} {value : Value} (htext : Writes text value) :
    Holds (Text.toUtf8 text) value := by
  refine ⟨text.map some, [], ?_, by simpa using htext [], .nothing⟩
  rw [Text.decodeBytes_toUtf8]
  exact .nothing

end WakeRouter.Json
