/-!
# Cutting texts

Prefixes, suffixes and the last occurrence of a separator.  `splitLast` is the one
right-to-left scan that hosts, authorities and addresses share.
-/

namespace WakeRouter.Text

/-- What follows the prefix `p`, when the text starts with it. -/
def dropPrefix? : (p s : List Char) → Option (List Char)
  | [], s => some s
  | _ :: _, [] => none
  | x :: p, y :: s => if x = y then dropPrefix? p s else none

/-- What precedes the suffix `p`, when the text ends with it. -/
def dropSuffix? (p s : List Char) : Option (List Char) :=
  (dropPrefix? p.reverse s.reverse).map List.reverse

/-- The texts before and after the last `c`. -/
def splitLast (c : Char) : List Char → Option (List Char × List Char)
  | [] => none
  | x :: s =>
    match splitLast c s with
    | some (before, after) => some (x :: before, after)
    | none => if x = c then some ([], s) else none

/-- The pieces between the occurrences of `c`: always one more than there are. -/
def pieces (c : Char) : List Char → List (List Char)
  | [] => [[]]
  | x :: s =>
    if x = c then [] :: pieces c s
    else
      match pieces c s with
      | [] => [[x]]
      | p :: ps => (x :: p) :: ps

/-- Whether `p` occurs somewhere in the text. -/
def occurs (p : List Char) : List Char → Bool
  | [] => p.isEmpty
  | x :: s => p.isPrefixOf (x :: s) || occurs p s

theorem takeWhile_append_cons {p : Char → Bool} {c : Char} (hc : p c = false) (s t : List Char) :
    (s ++ c :: t).takeWhile p = s.takeWhile p := by
  induction s with
  | nil => simp [hc]
  | cons x s ih => simp only [List.cons_append, List.takeWhile_cons, ih]

theorem dropWhile_append_cons {p : Char → Bool} {c : Char} (hc : p c = false) (s t : List Char) :
    (s ++ c :: t).dropWhile p = s.dropWhile p ++ c :: t := by
  induction s with
  | nil => simp [hc]
  | cons x s ih =>
      simp only [List.cons_append, List.dropWhile_cons, ih]
      split <;> rfl

theorem dropPrefix?_eq_some_iff {p s r : List Char} :
    dropPrefix? p s = some r ↔ s = p ++ r := by
  induction p generalizing s with
  | nil => simp [dropPrefix?, eq_comm]
  | cons x p ih =>
      cases s with
      | nil => simp [dropPrefix?]
      | cons y s =>
          by_cases h : x = y
          · subst h
            simp [dropPrefix?, ih]
          · simp [dropPrefix?, h, Ne.symm h]

theorem dropSuffix?_eq_some_iff {p s r : List Char} :
    dropSuffix? p s = some r ↔ s = r ++ p := by
  constructor
  · intro h
    obtain ⟨t, ht, rfl⟩ := Option.map_eq_some_iff.1 h
    have := congrArg List.reverse (dropPrefix?_eq_some_iff.1 ht)
    simpa using this
  · rintro rfl
    refine Option.map_eq_some_iff.2 ⟨r.reverse, ?_, by simp⟩
    exact dropPrefix?_eq_some_iff.2 (by simp)

theorem pieces_of_not_mem {c : Char} {s : List Char} (hc : c ∉ s) : pieces c s = [s] := by
  induction s with
  | nil => rfl
  | cons x s ih =>
      have hx : x ≠ c := fun h => hc (by simp [h])
      have hs : c ∉ s := fun h => hc (List.mem_cons_of_mem x h)
      simp [pieces, hx, ih hs]

theorem splitLast_eq_none_iff {c : Char} {s : List Char} :
    splitLast c s = none ↔ c ∉ s := by
  induction s with
  | nil => simp [splitLast]
  | cons x s ih =>
      cases h : splitLast c s with
      | some p =>
          have : c ∈ s := by
            by_cases hc : c ∈ s
            · exact hc
            · rw [ih.2 hc] at h
              cases h
          simp [splitLast, h, this]
      | none =>
          have : c ∉ s := ih.1 h
          by_cases hx : x = c
          · simp [splitLast, h, hx]
          · simp [splitLast, h, hx, this, Ne.symm hx]

theorem splitLast_eq_some_iff {c : Char} {s a b : List Char} :
    splitLast c s = some (a, b) ↔ s = a ++ c :: b ∧ c ∉ b := by
  induction s generalizing a with
  | nil => simp [splitLast]
  | cons x s ih =>
      cases h : splitLast c s with
      | some p =>
          obtain ⟨u, v⟩ := p
          simp only [splitLast, h, Option.some.injEq, Prod.mk.injEq]
          constructor
          · rintro ⟨rfl, rfl⟩
            obtain ⟨hs, hv⟩ := ih.1 h
            exact ⟨by simp [hs], hv⟩
          · rintro ⟨hs, hb⟩
            cases a with
            | nil =>
                simp only [List.nil_append, List.cons.injEq] at hs
                obtain ⟨rfl, rfl⟩ := hs
                rw [splitLast_eq_none_iff.2 hb] at h
                cases h
            | cons y a =>
                simp only [List.cons_append, List.cons.injEq] at hs
                obtain ⟨rfl, hs⟩ := hs
                have := ih.2 ⟨hs, hb⟩
                rw [h] at this
                simp only [Option.some.injEq, Prod.mk.injEq] at this
                exact ⟨by rw [this.1], this.2⟩
      | none =>
          have hc : c ∉ s := splitLast_eq_none_iff.1 h
          by_cases hx : x = c
          · subst hx
            simp only [splitLast, h, if_true, Option.some.injEq, Prod.mk.injEq]
            constructor
            · rintro ⟨rfl, rfl⟩
              exact ⟨rfl, hc⟩
            · rintro ⟨hs, hb⟩
              cases a with
              | nil => simpa using hs
              | cons y a =>
                  simp only [List.cons_append, List.cons.injEq] at hs
                  exact absurd (hs.2 ▸ by simp) hc
          · simp only [splitLast, h, hx, if_false]
            constructor
            · intro h
              cases h
            · rintro ⟨hs, hb⟩
              cases a with
              | nil =>
                  simp only [List.nil_append, List.cons.injEq] at hs
                  exact absurd hs.1 hx
              | cons y a =>
                  simp only [List.cons_append, List.cons.injEq] at hs
                  exact absurd (hs.2 ▸ by simp) hc

end WakeRouter.Text
