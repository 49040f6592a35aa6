import Mathlib.Data.List.Induction
import WakeRouter.Proofs.Http.Targets
import WakeRouter.Proofs.Text.Number
import WakeRouter.Text.Blank

/-!
# What is read out of an authority

An authority is scanned from the left, and two marks tell which brackets have come.  So a bracket
that is opened is closed behind it, and whoever looks for the host stops before the port: with a
port or without, the host is the same.
-/

namespace WakeRouter.Http.Uri

variable {s front rest host port place : List Char} {c : Char}

/-! ## Brackets -/

namespace AuthorityScan

variable {a b : AuthorityScan}

/-- What a character does to the marks about brackets. -/
inductive Marks (a b : AuthorityScan) (c : Char) : Prop
  | opens (hc : c = '[') (hopened : a.opened = false) (hopened' : b.opened = true)
      (hclosed' : b.closed = a.closed)
  | closes (hc : c = ']') (hopened : a.opened = true) (hopened' : b.opened = true)
      (hclosed' : b.closed = true)
  | other (hopen : c ≠ '[') (hclose : c ≠ ']') (hopened' : b.opened = a.opened)
      (hclosed' : b.closed = a.closed)

theorem marks_of_step (hstep : a.step c = some b) : Marks a b c := by
  unfold step at hstep
  split at hstep <;>
    simp only [Option.ite_none_left_eq_some, Option.ite_none_right_eq_some, Option.some.injEq,
      Bool.or_eq_true, Bool.not_eq_true', not_or, Bool.not_eq_true, Bool.not_eq_false] at hstep
  case h_1 =>
    obtain ⟨-, rfl⟩ := hstep
    exact .other (by decide) (by decide) rfl rfl
  case h_2 =>
    obtain ⟨⟨-, hopened⟩, rfl⟩ := hstep
    exact .opens rfl hopened rfl rfl
  case h_3 =>
    obtain ⟨⟨hopened, -⟩, rfl⟩ := hstep
    exact .closes rfl hopened hopened rfl
  case h_4 | h_5 =>
    subst hstep
    exact .other (by decide) (by decide) rfl rfl
  case h_6 hopen hclose _ _ =>
    obtain ⟨-, rfl⟩ := hstep
    exact .other hopen hclose rfl rfl

/-- The marks say which brackets have come, and a bracket is opened before it is closed. -/
structure Marked (s : List Char) (a : AuthorityScan) : Prop where
  opened : a.opened ↔ '[' ∈ s
  closed : a.closed ↔ ']' ∈ s
  order : a.closed → a.opened

theorem Marked.step (hmarked : Marked s a) (hstep : a.step c = some b) : Marked (s ++ [c]) b := by
  have hclosed := hmarked.closed
  cases marks_of_step hstep with
  | opens hc _ hopened' hclosed' =>
      constructor <;> simp [hc, hopened', hclosed', hclosed]
  | closes hc hopened hopened' hclosed' =>
      constructor <;> simp [hc, hopened', hclosed', ← hmarked.opened, hopened]
  | other hopen hclose hopened' hclosed' =>
      constructor
      · simp [hopened', hmarked.opened, hopen.symm]
      · simp [hclosed', hclosed, hclose.symm]
      · rw [hopened', hclosed']
        exact hmarked.order

theorem marked_of_scan (hscan : s.foldlM AuthorityScan.step .start = some a) : Marked s a := by
  induction s using List.reverseRecOn generalizing a with
  | nil =>
      obtain rfl := Option.some.inj hscan
      constructor <;> simp [start]
  | append_singleton s c ih =>
      rw [List.foldlM_append] at hscan
      obtain ⟨b, hbefore, hlast⟩ := Option.bind_eq_some_iff.mp hscan
      simp only [List.foldlM_cons, List.foldlM_nil, bind_pure] at hlast
      exact (ih hbefore).step hlast

end AuthorityScan

theorem exists_scan_of_isAuthority (hauthority : isAuthority s) :
    ∃ a, s.foldlM AuthorityScan.step .start = some a ∧ a.isComplete := by
  rw [isAuthority, Bool.and_eq_true] at hauthority
  obtain ⟨-, hscanned⟩ := hauthority
  split at hscanned
  next a hscan => exact ⟨a, hscan, hscanned⟩
  next => cases hscanned

/-- A bracket that is opened in an authority is closed behind it. -/
theorem mem_of_isAuthority_bracket (hauthority : isAuthority (front ++ '[' :: rest)) :
    ']' ∈ rest := by
  obtain ⟨a, hscan, hcomplete⟩ := exists_scan_of_isAuthority hauthority
  have hmarked := AuthorityScan.marked_of_scan hscan
  have hboth : ']' ∈ front ++ '[' :: rest := by
    have hopened : a.opened = true := hmarked.opened.mpr (by simp)
    simp only [AuthorityScan.isComplete, Bool.and_eq_true, beq_iff_eq] at hcomplete
    exact hmarked.closed.mp (hcomplete.1.1.1 ▸ hopened)
  have hfront : ']' ∉ front := by
    rw [List.foldlM_append] at hscan
    obtain ⟨before, hbefore, hlater⟩ := Option.bind_eq_some_iff.mp hscan
    rw [List.foldlM_cons] at hlater
    obtain ⟨after, hstep, -⟩ := Option.bind_eq_some_iff.mp hlater
    have hearlier := AuthorityScan.marked_of_scan hbefore
    intro hclosed
    have hopened := hearlier.order (hearlier.closed.mpr hclosed)
    cases AuthorityScan.marks_of_step hstep with
    | opens _ hfree => simp [hfree] at hopened
    | closes hc => simp at hc
    | other hopen => exact hopen rfl
  simpa [hfront] using hboth

/-! ## Blanks -/

theorem range_of_isAlphanum (hc : c.isAlphanum) : 48 ≤ c.toNat ∧ c.toNat ≤ 122 := by
  have hclass : ((c.isUpper || c.isLower) || c.isDigit) = true := hc
  simp only [Bool.or_eq_true] at hclass
  rcases hclass with (hupper | hlower) | hdigit
  · have hrange : 65 ≤ c.toNat ∧ c.toNat ≤ 90 := of_decide_eq_true hupper
    omega
  · have hrange : 97 ≤ c.toNat ∧ c.toNat ≤ 122 :=
      (Bool.and_eq_true_iff.mp hlower).imp of_decide_eq_true of_decide_eq_true
    omega
  · have hrange : 48 ≤ c.toNat ∧ c.toNat ≤ 57 :=
      (Bool.and_eq_true_iff.mp hdigit).imp of_decide_eq_true of_decide_eq_true
    omega

theorem range_of_isAuthorityChar (hc : isAuthorityChar c) : 0x21 ≤ c.toNat ∧ c.toNat ≤ 0x7e := by
  have hsigns : ∀ d ∈ "!$&\x27()*+,-.;=_~".toList, 0x21 ≤ d.toNat ∧ d.toNat ≤ 0x7e := by simp
  rw [isAuthorityChar, Bool.or_eq_true, List.contains_eq_mem, decide_eq_true_eq] at hc
  rcases hc with hc | hc
  · have hrange := range_of_isAlphanum hc
    omega
  · exact hsigns c hc

theorem step_of_isBlank (hblank : Text.isBlank c) (a : AuthorityScan) : a.step c = none := by
  have hchar : isAuthorityChar c = false := by
    rw [Bool.eq_false_iff]
    intro hc
    have hrange := range_of_isAuthorityChar hc
    simp only [Text.isBlank, Bool.or_eq_true, Bool.and_eq_true, decide_eq_true_eq] at hblank
    omega
  unfold AuthorityScan.step
  split
  case h_1 | h_2 | h_3 | h_4 | h_5 => exact absurd hblank (by decide)
  case h_6 => simp [hchar]

theorem isBlank_of_mem_authority (hauthority : isAuthority s) (hc : c ∈ s) :
    Text.isBlank c = false := by
  rw [Bool.eq_false_iff]
  intro hblank
  rw [isAuthority_eq_false (step_of_isBlank hblank) hc] at hauthority
  cases hauthority

/-! ## Host and port -/

theorem hostOf_of_userInfo (hat : '@' ∉ place) (user : List Char) :
    hostOf (user ++ '@' :: place) = hostOf place := by
  have hplace : Text.splitLast '@' place = none := Text.splitLast_eq_none_iff.mpr hat
  have hwhole : Text.splitLast '@' (user ++ '@' :: place) = some (user, place) :=
    Text.splitLast_eq_some_iff.mpr ⟨rfl, hat⟩
  simp only [hostOf, hplace, hwhole]

theorem hostOf_place_port (hat : '@' ∉ place) (hport : '@' ∉ port)
    (hbracket : ∀ rest, place = '[' :: rest → ']' ∈ rest) :
    hostOf (place ++ ':' :: port) = hostOf place := by
  have hplace : Text.splitLast '@' place = none := Text.splitLast_eq_none_iff.mpr hat
  have hwhole : Text.splitLast '@' (place ++ ':' :: port) = none :=
    Text.splitLast_eq_none_iff.mpr (by simp [hat, hport])
  simp only [hostOf, hplace, hwhole]
  cases place with
  | nil => rfl
  | cons c rest =>
      by_cases hc : c = '['
      · subst hc
        obtain ⟨literal, behind, rfl, -⟩ := List.eq_append_cons_of_mem (hbracket rest rfl)
        simp [Text.takeWhile_append_cons]
      · have htake : (c :: rest ++ ':' :: port).takeWhile (· != ':') =
            (c :: rest).takeWhile (· != ':') := Text.takeWhile_append_cons rfl (c :: rest) port
        simpa [hc] using htake

theorem hostOf_port (hauthority : isAuthority (host ++ ':' :: port)) (hat : '@' ∉ port)
    (hclose : ']' ∉ port) : hostOf (host ++ ':' :: port) = hostOf host := by
  have hlater : ∀ front rest, host = front ++ '[' :: rest → ']' ∈ rest := by
    rintro front rest rfl
    rw [List.append_assoc, List.cons_append] at hauthority
    simpa [hclose] using mem_of_isAuthority_bracket hauthority
  cases hsplit : Text.splitLast '@' host with
  | none =>
      have hplain := Text.splitLast_eq_none_iff.mp hsplit
      exact hostOf_place_port hplain hat (hlater [])
  | some split =>
      obtain ⟨user, place⟩ := split
      obtain ⟨rfl, hplace⟩ := Text.splitLast_eq_some_iff.mp hsplit
      rw [List.append_assoc, List.cons_append, hostOf_of_userInfo hplace,
        hostOf_of_userInfo (by simp [hplace, hat])]
      refine hostOf_place_port hplace hat ?_
      rintro rest rfl
      exact hlater (user ++ ['@']) rest (by simp)

theorem portOf?_writeNumber (host : List Char) (port : UInt16) :
    portOf? (host ++ ':' :: Text.writeNumber port.toNat) = some port.toNat := by
  have hsplit : Text.splitLast ':' (host ++ ':' :: Text.writeNumber port.toNat) =
      some (host, Text.writeNumber port.toNat) :=
    Text.splitLast_eq_some_iff.mpr ⟨rfl, Text.not_mem_writeNumber rfl _⟩
  simp only [portOf?, hsplit, Option.bind_eq_bind, Option.bind_some]
  exact Text.readNumber?_writeNumber port.toNat_lt

end WakeRouter.Http.Uri
