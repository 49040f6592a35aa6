import WakeRouter.Http.Uri

/-!
# What a target keeps of a text

A text that is read as a target ends before its first `#`.  A scheme and an authority at its
front are taken off, and what stands behind them goes out as it is, with a slash in front where
there is none.  `read` looks for the end of the authority from the left, so what is written
behind a text in which that end stands does not move it.
-/

namespace WakeRouter.Http.Uri

variable {s t u base : List Char} {c : Char} {uri : Uri}

/-! ## Up to the first hash -/

/-- What stands before the first `#`. -/
def upToHash (s : List Char) : List Char := s.takeWhile (· != '#')

theorem upToHash_append_of_not_mem (hs : '#' ∉ s) (u : List Char) :
    upToHash (s ++ u) = s ++ upToHash u := by
  apply List.takeWhile_append_of_pos
  intro c hc
  simpa using ne_of_mem_of_not_mem hc hs

theorem upToHash_of_not_mem (hs : '#' ∉ s) : upToHash s = s := by
  simpa [upToHash] using upToHash_append_of_not_mem hs []

theorem upToHash_append_hash (hs : '#' ∉ s) (u : List Char) : upToHash (s ++ '#' :: u) = s := by
  rw [upToHash_append_of_not_mem hs]
  simp [upToHash]

theorem exists_eq_append_hash (hs : '#' ∈ s) : ∃ t u, '#' ∉ t ∧ s = t ++ '#' :: u := by
  obtain ⟨t, u, rfl, ht⟩ := List.eq_append_cons_of_mem hs
  exact ⟨t, u, ht, rfl⟩

/-! ## Path and query -/

/-- A path begins with a slash. -/
def rooted (s : List Char) : List Char :=
  if s.head? = some '/' then s else '/' :: s

theorem head?_rooted (s : List Char) : (rooted s).head? = some '/' := by
  unfold rooted
  split
  next hslash => exact hslash
  next => rfl

theorem rooted_inj (hhead : s.head? = t.head?) : rooted s = rooted t ↔ s = t := by
  unfold rooted
  rw [hhead]
  split <;> simp

/-- The cut leaves the first character, or nothing, whatever stands behind it. -/
theorem head?_upToHash_append (s : List Char) (c : Char) (t u : List Char) :
    (upToHash (s ++ c :: t)).head? = (upToHash (s ++ c :: u)).head? := by
  have hfirst : ∀ first : Char, ∀ t u : List Char,
      (upToHash (first :: t)).head? = (upToHash (first :: u)).head? := by
    intro first t u
    simp only [upToHash, List.takeWhile_cons]
    split <;> rfl
  cases s <;> exact hfirst ..

theorem readPath?_eq_some (hs : ∀ c, s.head? = some c → endsAuthority c)
    (hread : readPath? s = some t) : t = rooted (upToHash s) := by
  unfold readPath? at hread
  simp only [Option.ite_none_right_eq_some, Option.some.injEq] at hread
  obtain ⟨-, rfl⟩ := hread
  cases s with
  | nil => rfl
  | cons c s =>
      have hc : c = '/' ∨ c = '?' ∨ c = '#' := by
        simpa [endsAuthority, or_assoc] using hs c rfl
      rcases hc with rfl | rfl | rfl <;> simp [upToHash, rooted]

/-! ## Behind scheme and authority -/

/-- An authority holds no character that its scan stops at. -/
theorem isAuthority_eq_false (hstuck : ∀ scan, AuthorityScan.step scan c = none) (hc : c ∈ s) :
    isAuthority s = false := by
  have hnone : ∀ scan, s.foldlM AuthorityScan.step scan = none := by
    induction s with
    | nil => cases hc
    | cons d s ih =>
        intro scan
        rw [List.foldlM_cons]
        rcases List.mem_cons.mp hc with rfl | hlater
        · rw [hstuck]
          rfl
        · cases scan.step d with
          | none => rfl
          | some scan => exact ih hlater scan
  simp [isAuthority, hnone]

theorem dropScheme?_eq_some (hdrop : dropScheme? s = some t) :
    s = s.takeWhile isSchemeChar ++ [':', '/', '/'] ++ t ∧
      (s.dropWhile isSchemeChar).drop 3 = t := by
  unfold dropScheme? at hdrop
  simp only [Option.ite_none_right_eq_some] at hdrop
  have hrest := Text.dropPrefix?_eq_some_iff.mp hdrop.2
  constructor
  · rw [List.append_assoc, ← hrest, List.takeWhile_append_dropWhile]
  · simp [hrest]

/-- What scheme and authority leave of a text; all of it when it begins with a slash. -/
def behindAuthority (s : List Char) : List Char :=
  if s.head? = some '/' then s
  else ((s.dropWhile isSchemeChar).drop 3).dropWhile (!endsAuthority ·)

theorem behindAuthority_of_head?_ne (hhead : s.head? ≠ some '/') : behindAuthority s =
    ((s.dropWhile isSchemeChar).drop 3).dropWhile (!endsAuthority ·) :=
  if_neg hhead

theorem read_of_slash (hread : read ('/' :: s) = .ok uri) :
    uri.pathAndQuery? = some (String.ofList (rooted (upToHash ('/' :: s)))) := by
  unfold read at hread
  split at hread
  · cases hread
  simp only at hread
  split at hread
  next path hpath =>
    cases hread
    have hends : ∀ c, ('/' :: s).head? = some c → endsAuthority c := by
      rintro c ⟨⟩
      rfl
    rw [readPath?_eq_some hends hpath]
  next => cases hread

/-- An authority alone has no slash. -/
theorem read_of_scheme (hhead : s.head? ≠ some '/') (hslash : '/' ∈ s) (hread : read s = .ok uri) :
    ∃ rest, dropScheme? s = some rest ∧ uri.pathAndQuery? =
      some (String.ofList (rooted (upToHash (rest.dropWhile (!endsAuthority ·))))) := by
  unfold read at hread
  split at hread
  · cases hread
  split at hread
  · simp at hslash
  · exact absurd rfl hhead
  split at hread
  next rest hdrop =>
    refine ⟨rest, hdrop, ?_⟩
    simp only at hread
    split at hread
    · cases hread
    split at hread
    next path hpath =>
      cases hread
      have hends : ∀ c, (rest.dropWhile (!endsAuthority ·)).head? = some c →
          endsAuthority c := by
        intro c hc
        simpa [hc] using List.head?_dropWhile_not (!endsAuthority ·) rest
      rw [readPath?_eq_some hends hpath]
    next => cases hread
  next =>
    rw [isAuthority_eq_false (fun _ => rfl) hslash] at hread
    cases hread

theorem pathAndQuery?_of_read (hslash : '/' ∈ s) (hread : read s = .ok uri) :
    uri.pathAndQuery? = some (String.ofList (rooted (upToHash (behindAuthority s)))) := by
  by_cases hhead : s.head? = some '/'
  · obtain ⟨s, rfl⟩ := List.head?_eq_some_iff.mp hhead
    exact read_of_slash hread
  · obtain ⟨rest, hdrop, hpath⟩ := read_of_scheme hhead hslash hread
    rw [behindAuthority_of_head?_ne hhead, (dropScheme?_eq_some hdrop).2, hpath]

/-- What stands in front of path and query has no `#`, so the cut does not fall into it. -/
theorem exists_eq_append_behindAuthority (hslash : '/' ∈ s) (hread : read s = .ok uri) :
    ∃ front, '#' ∉ front ∧ s = front ++ behindAuthority s := by
  by_cases hhead : s.head? = some '/'
  · exact ⟨[], List.not_mem_nil, by simp [behindAuthority, hhead]⟩
  · obtain ⟨rest, hdrop, -⟩ := read_of_scheme hhead hslash hread
    obtain ⟨hs, hrest⟩ := dropScheme?_eq_some hdrop
    have hno : ∀ {p : Char → Bool} {s : List Char}, p '#' = false → '#' ∉ s.takeWhile p := by
      intro p s hp hhash
      rw [List.all_eq_true.mp List.all_takeWhile _ hhash] at hp
      cases hp
    refine ⟨s.takeWhile isSchemeChar ++ [':', '/', '/'] ++ rest.takeWhile (!endsAuthority ·),
      ?_, ?_⟩
    · simp [hno (s := s) (p := isSchemeChar) (by decide),
        hno (s := rest) (p := (!endsAuthority ·)) (by decide)]
    · rw [behindAuthority_of_head?_ne hhead, hrest, List.append_assoc,
        List.takeWhile_append_dropWhile]
      exact hs

/-- The slashes around `name` end every scheme and authority that stand before them. -/
theorem exists_behindAuthority_eq (base : List Char) {name : List Char} (hname : 2 ≤ name.length) :
    ∃ kept, ∀ u, behindAuthority (base ++ '/' :: (name ++ '/' :: u)) = kept ++ '/' :: u := by
  by_cases hhead : (base ++ ['/']).head? = some '/'
  · refine ⟨base ++ '/' :: name, fun u => ?_⟩
    have hslash : (base ++ '/' :: (name ++ '/' :: u)).head? = some '/' := by
      rw [← hhead]
      cases base <;> rfl
    simp [behindAuthority, hslash]
  · let behindScheme := base.dropWhile isSchemeChar ++ '/' :: name
    refine ⟨(behindScheme.drop 3).dropWhile (!endsAuthority ·), fun u => ?_⟩
    have hnotSlash : (base ++ '/' :: (name ++ '/' :: u)).head? ≠ some '/' := by
      intro hslash
      rw [← hslash] at hhead
      cases base <;> exact hhead rfl
    have hlong : 3 ≤ behindScheme.length := by
      rw [List.length_append, List.length_cons]
      omega
    rw [behindAuthority_of_head?_ne hnotSlash, Text.dropWhile_append_cons (by decide),
      ← List.cons_append, ← List.append_assoc, List.drop_append_of_le_length hlong,
      Text.dropWhile_append_cons (by decide)]

end WakeRouter.Http.Uri
