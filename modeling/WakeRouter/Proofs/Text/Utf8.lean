import WakeRouter.Text.Utf8

/-!
# Characters and their bytes

What is written as UTF-8 is read back as it was.  A character takes between one and four bytes;
its code point is cut into groups of six bits from the right, and how many groups there are is
seen from the first byte.
-/

namespace WakeRouter.Text

variable {a b c d : UInt8} {n : Nat} (rest : Bytes)

/-! ## Single bytes -/

theorem toNat_ofNat_of_lt (hn : n < 256) : (UInt8.ofNat n).toNat = n :=
  UInt8.toNat_ofNat_of_lt' hn

theorem isContinuation_iff : isContinuation b ↔ 0x80 ≤ b.toNat ∧ b.toNat ≤ 0xbf := by
  simp [isContinuation, UInt8.le_iff_toNat_le]

theorem isContinuation_ofNat (n : Nat) : isContinuation (UInt8.ofNat (n % 64 + 128)) := by
  rw [isContinuation_iff, toNat_ofNat_of_lt (by omega)]
  omega

theorem join_ofNat (bits n : Nat) :
    join bits (UInt8.ofNat (n % 64 + 128)) = bits * 64 + n % 64 := by
  rw [join, toNat_ofNat_of_lt (by omega)]
  omega

/-- The second byte is restricted behind the lead bytes that could begin a code point that is
shorter, a surrogate or too large. -/
theorem isSecond_iff : isSecond a b ↔ isContinuation b ∧ (a.toNat = 0xe0 → 0xa0 ≤ b.toNat) ∧
    (a.toNat = 0xed → b.toNat ≤ 0x9f) ∧ (a.toNat = 0xf0 → 0x90 ≤ b.toNat) ∧
    (a.toNat = 0xf4 → b.toNat ≤ 0x8f) := by
  rw [isContinuation_iff]
  unfold isSecond
  simp only [← UInt8.toNat_inj, UInt8.reduceToNat]
  repeat' split
  all_goals simp [isContinuation_iff, UInt8.le_iff_toNat_le]; omega

/-! ## One character -/

theorem decodeBytes_one (ha : a.toNat < 0x80) :
    decodeBytes (a :: rest) = some (Char.ofNat a.toNat) :: decodeBytes rest := by
  have hone : a < 0x80 := UInt8.lt_iff_toNat_lt.mpr ha
  rw [decodeBytes.eq_def]
  exact if_pos hone

/-- Which bytes begin a character of several. -/
theorem isLead_of_toNat (ha : 0xc2 ≤ a.toNat) (ha' : a.toNat ≤ 0xf4) :
    ¬a < 0x80 ∧ ¬(a < 0xc2 || 0xf4 < a) := by
  simp only [UInt8.lt_iff_toNat_lt, UInt8.reduceToNat, Bool.or_eq_true, decide_eq_true_eq]
  omega

theorem decodeBytes_two (ha : 0xc2 ≤ a.toNat) (ha' : a.toNat < 0xe0) (hb : isContinuation b) :
    decodeBytes (a :: b :: rest) =
      some (Char.ofNat (join (a.toNat % 32) b)) :: decodeBytes rest := by
  have hsecond : isSecond a b := isSecond_iff.mpr ⟨hb, by omega, by omega, by omega, by omega⟩
  obtain ⟨hone, hlead⟩ := isLead_of_toNat ha (by omega)
  have htwo : a < 0xe0 := UInt8.lt_iff_toNat_lt.mpr ha'
  rw [decodeBytes.eq_def]
  simp only [if_neg hone, if_neg hlead, if_pos htwo, hsecond, Bool.not_true, Bool.false_eq_true,
    if_false]

theorem decodeBytes_three (ha : 0xe0 ≤ a.toNat) (ha' : a.toNat < 0xf0) (hb : isSecond a b)
    (hc : isContinuation c) : decodeBytes (a :: b :: c :: rest) =
      some (Char.ofNat (join (join (a.toNat % 16) b) c)) :: decodeBytes rest := by
  obtain ⟨hone, hlead⟩ := isLead_of_toNat (a := a) (by omega) (by omega)
  have htwo : ¬a < 0xe0 := by simpa [UInt8.lt_iff_toNat_lt] using ha
  have hthree : a < 0xf0 := UInt8.lt_iff_toNat_lt.mpr ha'
  rw [decodeBytes.eq_def]
  simp only [if_neg hone, if_neg hlead, if_neg htwo, if_pos hthree, hb, hc, Bool.not_true,
    Bool.false_eq_true, if_false]

theorem decodeBytes_four (ha : 0xf0 ≤ a.toNat) (ha' : a.toNat ≤ 0xf4) (hb : isSecond a b)
    (hc : isContinuation c) (hd : isContinuation d) : decodeBytes (a :: b :: c :: d :: rest) =
      some (Char.ofNat (join (join (join (a.toNat % 8) b) c) d)) :: decodeBytes rest := by
  obtain ⟨hone, hlead⟩ := isLead_of_toNat (by omega) ha'
  have htwo : ¬a < 0xe0 := by simp [UInt8.lt_iff_toNat_lt]; omega
  have hthree : ¬a < 0xf0 := by simpa [UInt8.lt_iff_toNat_lt] using ha
  rw [decodeBytes.eq_def]
  simp only [if_neg hone, if_neg hlead, if_neg htwo, if_neg hthree, hb, hc, hd, Bool.not_true,
    Bool.false_eq_true, if_false]

/-- A code point is no surrogate. -/
theorem toNat_lt_or (x : Char) : x.toNat < 0xd800 ∨ 0xdfff < x.toNat ∧ x.toNat < 0x110000 := by
  rcases x.valid with hlow | ⟨hgap, hhigh⟩
  · exact .inl hlow
  · exact .inr ⟨hgap, hhigh⟩

/-- The bytes of a character, each with six bits of the code point or what is left of it. -/
theorem utf8EncodeChar_eq (x : Char) : String.utf8EncodeChar x =
    if x.toNat ≤ 0x7f then [UInt8.ofNat x.toNat]
    else if x.toNat ≤ 0x7ff then
      [UInt8.ofNat (x.toNat / 64 % 32 + 192), UInt8.ofNat (x.toNat % 64 + 128)]
    else if x.toNat ≤ 0xffff then
      [UInt8.ofNat (x.toNat / 4096 % 16 + 224), UInt8.ofNat (x.toNat / 64 % 64 + 128),
        UInt8.ofNat (x.toNat % 64 + 128)]
    else
      [UInt8.ofNat (x.toNat / 262144 % 8 + 240), UInt8.ofNat (x.toNat / 4096 % 64 + 128),
        UInt8.ofNat (x.toNat / 64 % 64 + 128), UInt8.ofNat (x.toNat % 64 + 128)] := rfl

theorem decodeBytes_utf8EncodeChar (x : Char) :
    decodeBytes (String.utf8EncodeChar x ++ rest) = some x :: decodeBytes rest := by
  have hpoint := toNat_lt_or x
  have hback {m : Nat} (hm : m = x.toNat) : some (Char.ofNat m) = some x := by
    rw [hm, Char.ofNat_toNat]
  rw [utf8EncodeChar_eq]
  split
  next hone =>
    have ha := toNat_ofNat_of_lt (n := x.toNat) (by omega)
    refine (decodeBytes_one rest (by omega)).trans ?_
    rw [hback ha]
  next hone =>
  split
  next htwo =>
    have ha := toNat_ofNat_of_lt (n := x.toNat / 64 % 32 + 192) (by omega)
    refine (decodeBytes_two rest (by omega) (by omega) (isContinuation_ofNat _)).trans ?_
    rw [join_ofNat, ha, hback (by omega)]
  next htwo =>
  split
  next hthree =>
    have ha := toNat_ofNat_of_lt (n := x.toNat / 4096 % 16 + 224) (by omega)
    have hb := toNat_ofNat_of_lt (n := x.toNat / 64 % 64 + 128) (by omega)
    have hsecond : isSecond (UInt8.ofNat (x.toNat / 4096 % 16 + 224))
        (UInt8.ofNat (x.toNat / 64 % 64 + 128)) :=
      isSecond_iff.mpr ⟨isContinuation_ofNat _, by omega, by omega, by omega, by omega⟩
    refine (decodeBytes_three rest (by omega) (by omega) hsecond (isContinuation_ofNat _)).trans ?_
    rw [join_ofNat, join_ofNat, ha, hback (by omega)]
  next hthree =>
    have ha := toNat_ofNat_of_lt (n := x.toNat / 262144 % 8 + 240) (by omega)
    have hb := toNat_ofNat_of_lt (n := x.toNat / 4096 % 64 + 128) (by omega)
    have hsecond : isSecond (UInt8.ofNat (x.toNat / 262144 % 8 + 240))
        (UInt8.ofNat (x.toNat / 4096 % 64 + 128)) :=
      isSecond_iff.mpr ⟨isContinuation_ofNat _, by omega, by omega, by omega, by omega⟩
    refine (decodeBytes_four rest (by omega) (by omega) hsecond (isContinuation_ofNat _)
      (isContinuation_ofNat _)).trans ?_
    rw [join_ofNat, join_ofNat, join_ofNat, ha, hback (by omega)]

/-- What is written is read back. -/
theorem decodeBytes_toUtf8 (s : List Char) : decodeBytes (toUtf8 s) = s.map some := by
  induction s with
  | nil => rfl
  | cons x s ih =>
      have hcons : toUtf8 (x :: s) = String.utf8EncodeChar x ++ toUtf8 s := List.flatMap_cons
      rw [hcons, decodeBytes_utf8EncodeChar, ih, List.map_cons]

end WakeRouter.Text
