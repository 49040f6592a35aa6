/-!
# Blanks at the ends of a text

A blank is a character with the Unicode property White_Space.  Texts that a person
wrote (addresses, hosts, durations) are read without the blanks around them.
-/

namespace WakeRouter.Text

/-- The 25 code points with the property White_Space. -/
def isBlank (c : Char) : Bool :=
  let n := c.toNat
  (9 ≤ n && n ≤ 13) || n = 0x20 || n = 0x85 || n = 0xa0 || n = 0x1680 ||
    (0x2000 ≤ n && n ≤ 0x200a) || n = 0x2028 || n = 0x2029 || n = 0x202f ||
    n = 0x205f || n = 0x3000

def trimStart (s : List Char) : List Char :=
  s.dropWhile isBlank

def trimEnd (s : List Char) : List Char :=
  (s.reverse.dropWhile isBlank).reverse

def trim (s : List Char) : List Char :=
  trimEnd (trimStart s)

theorem trimStart_eq_self {s : List Char} (hfirst : ∀ c, s.head? = some c → isBlank c = false) :
    trimStart s = s := by
  cases s with
  | nil => rfl
  | cons c s => exact List.dropWhile_cons_of_neg (by simp [hfirst c rfl])

theorem trimEnd_eq_self {s : List Char} (hlast : ∀ c, s.getLast? = some c → isBlank c = false) :
    trimEnd s = s := by
  have hreverse : trimStart s.reverse = s.reverse := by
    apply trimStart_eq_self
    intro c hc
    rw [List.head?_reverse] at hc
    exact hlast c hc
  rw [trimEnd, show s.reverse.dropWhile isBlank = s.reverse from hreverse, List.reverse_reverse]

theorem trim_eq_self {s : List Char} (hfirst : ∀ c, s.head? = some c → isBlank c = false)
    (hlast : ∀ c, s.getLast? = some c → isBlank c = false) : trim s = s := by
  rw [trim, trimStart_eq_self hfirst, trimEnd_eq_self hlast]

theorem trim_of_isBlank {s : List Char} (hblank : ∀ c ∈ s, isBlank c) : trim s = [] := by
  have hstart : trimStart (s ++ []) = [] := List.dropWhile_append_of_pos hblank
  rw [List.append_nil] at hstart
  rw [trim, hstart]
  rfl

theorem trim_padded {left word right : List Char} (hblank : ∀ c ∈ left ++ right, isBlank c)
    (hfirst : ∀ c, word.head? = some c → isBlank c = false)
    (hlast : ∀ c, word.getLast? = some c → isBlank c = false) :
    trim (left ++ word ++ right) = word := by
  cases word with
  | nil => exact trim_of_isBlank (by simpa using hblank)
  | cons first rest =>
      have hleft : ∀ c ∈ left, isBlank c := fun c hc => hblank c (List.mem_append_left _ hc)
      have hright : ∀ c ∈ right.reverse, isBlank c := fun c hc =>
        hblank c (List.mem_append_right _ (List.mem_reverse.mp hc))
      have hstart : trimStart (left ++ first :: rest ++ right) = first :: rest ++ right := by
        rw [trimStart, List.append_assoc, List.dropWhile_append_of_pos hleft]
        exact trimStart_eq_self (by simpa using hfirst)
      rw [trim, hstart, trimEnd, List.reverse_append, List.dropWhile_append_of_pos hright]
      exact trimEnd_eq_self hlast

theorem exists_blanks_trim (s : List Char) :
    ∃ left right, s = left ++ trim s ++ right ∧ ∀ c ∈ left ++ right, isBlank c := by
  have hends : ∀ t : List Char, ∀ c ∈ t.takeWhile isBlank, isBlank c := fun t c hc =>
    List.all_eq_true.mp List.all_takeWhile c hc
  refine ⟨s.takeWhile isBlank, ((trimStart s).reverse.takeWhile isBlank).reverse, ?_, ?_⟩
  · rw [trim, trimEnd, List.append_assoc, ← List.reverse_append, List.takeWhile_append_dropWhile,
      List.reverse_reverse, trimStart, List.takeWhile_append_dropWhile]
  · intro c hc
    rcases List.mem_append.mp hc with hc | hc
    · exact hends s c hc
    · exact hends _ c (List.mem_reverse.mp hc)

theorem isBlank_of_getLast?_trim {s : List Char} {c : Char} (hc : (trim s).getLast? = some c) :
    isBlank c = false := by
  rw [trim, trimEnd, List.getLast?_reverse] at hc
  simpa [hc] using List.head?_dropWhile_not isBlank (trimStart s).reverse

theorem isBlank_of_head?_trim {s : List Char} {c : Char} (hc : (trim s).head? = some c) :
    isBlank c = false := by
  have hfirst : (trimStart s).head? = some c := by
    have hends : trim s <+: trimStart s := by
      rw [trim, trimEnd, ← List.reverse_suffix, List.reverse_reverse]
      exact List.dropWhile_suffix _
    obtain ⟨right, hright⟩ := hends
    rw [← hright, List.head?_append, hc, Option.some_or]
  have hstop := List.head?_dropWhile_not isBlank s
  rw [show (s.dropWhile isBlank).head? = some c from hfirst] at hstop
  simpa using hstop

theorem trim_trim (s : List Char) : trim (trim s) = trim s :=
  trim_eq_self (fun _ => isBlank_of_head?_trim) fun _ => isBlank_of_getLast?_trim

/-- More blanks around a text make no difference. -/
theorem trim_append_blanks {left right : List Char} (s : List Char)
    (hblank : ∀ c ∈ left ++ right, isBlank c) : trim (left ++ s ++ right) = trim s := by
  obtain ⟨first, last, hs, hends⟩ := exists_blanks_trim s
  have hall : ∀ c ∈ (left ++ first) ++ (last ++ right), isBlank c := by
    simp only [List.mem_append] at hblank hends ⊢
    rintro c ((hc | hc) | (hc | hc))
    · exact hblank c (.inl hc)
    · exact hends c (.inl hc)
    · exact hends c (.inr hc)
    · exact hblank c (.inr hc)
  have htext : left ++ s ++ right = (left ++ first) ++ trim s ++ (last ++ right) := by
    generalize trim s = word at hs
    simp [hs]
  rw [htext]
  exact trim_padded hall (fun _ => isBlank_of_head?_trim) fun _ => isBlank_of_getLast?_trim

theorem isBlank_of_isDigit {c : Char} (hdigit : c.isDigit) : isBlank c = false := by
  simp only [Char.isDigit, Bool.and_eq_true, decide_eq_true_eq, ge_iff_le,
    UInt32.le_iff_toNat_le] at hdigit
  have hlow : 48 ≤ c.toNat := hdigit.1
  have hhigh : c.toNat ≤ 57 := hdigit.2
  simp only [isBlank, Bool.or_eq_false_iff, Bool.and_eq_false_iff, decide_eq_false_iff_not]
  omega

end WakeRouter.Text
