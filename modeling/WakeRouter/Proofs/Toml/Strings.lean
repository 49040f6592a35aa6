import WakeRouter.Proofs.Text.Number
import WakeRouter.Toml.Quotes
import WakeRouter.Toml.Writer

/-!
# Strings read back

Whatever characters a string has, the style that the writer picks for it can be read
again.  In the styles on one line this goes character by character.  In those over
several lines a reader that meets quotes looks ahead for the closing three, so there the
induction also has to know how many quotes in a row are still to come.
-/

namespace WakeRouter.Toml.Quotes

open Text (Stops stops_cons ne_cons_of_stops)

variable {c : Char} {s text rest : List Char}

attribute [local simp] scanBasic scanLiteral scanBasicLines scanLiteralLines

/-! ## Characters -/

theorem isPlain_of_not_control (hcontrol : Writer.isControl c = false) (hline : c ≠ '\n') :
    isPlain c := by
  have hshown : c.toNat ≠ 0x7f ∧ (c ≠ '\t' → 0x20 ≤ c.toNat) := by
    simpa [Writer.isControl, hline, and_comm] using hcontrol
  by_cases htab : c = '\t'
  · rw [htab]
    decide
  · simp [isPlain, hshown.1, hshown.2 htab]

theorem ne_lineEnd_of_isPlain (hplain : isPlain c) : c ≠ '\n' ∧ c ≠ '\r' := by
  constructor
  · rintro rfl
    revert hplain
    decide
  · rintro rfl
    revert hplain
    decide

/-- The code that is written in four digits names the character again. -/
theorem codePoint?_writeHex (c : Char) :
    codePoint? (List.replicate (4 - (Text.writeHex c.toNat).length) '0' ++
      (Text.writeHex c.toNat).map Char.toUpper) = some c := by
  have hzeros : ∀ k, (List.replicate k '0').foldlM
      (fun n c => (Text.hexValue? c).map (16 * n + ·)) 0 = some 0 := by
    intro k
    induction k with
    | zero => rfl
    | succ k ih =>
      have hzero : Text.hexValue? '0' = some 0 := by decide
      simp [List.replicate_succ, hzero, ih]
  have hvalue := Text.foldlM_hexValue?_writeHex
    (fun d hd => Text.hexValue?_toUpper_digitChar hd) c.toNat
  have hvalid : c.toNat.isValidChar := c.valid
  have hchar : Char.ofNatAux c.toNat hvalid = c := by
    have := Char.ofNat_toNat c
    rwa [Char.ofNat, dif_pos hvalid] at this
  have hread : (List.replicate (4 - (Text.writeHex c.toNat).length) '0' ++
      (Text.writeHex c.toNat).map Char.toUpper).foldlM
        (fun n c => (Text.hexValue? c).map (16 * n + ·)) 0 = some c.toNat := by
    simp [List.foldlM_append, hzeros, hvalue]
  rw [codePoint?, hread]
  exact (dif_pos hvalid).trans (congrArg some hchar)

/-- The ways in which a character other than a quote is written within double quotes. -/
inductive Escape (c : Char) : List Char → Prop
  | short {e : Char} (hshort : shortEscape? e = some c) : Escape c ['\\', e]
  | code {v w x y : Char} (hcode : codePoint? [v, w, x, y] = some c) :
    Escape c ['\\', 'u', v, w, x, y]
  | plain (hplain : isPlain c) (hbackslash : c ≠ '\\') : Escape c [c]

theorem escape_control (hcontrol : Writer.isControl c) :
    Escape c (['\\', 'u'] ++ List.replicate (4 - (Text.writeHex c.toNat).length) '0' ++
      (Text.writeHex c.toNat).map Char.toUpper) := by
  have hcode : c.toNat < 0x80 := by
    simp only [Writer.isControl, Bool.or_eq_true, Bool.and_eq_true, decide_eq_true_eq,
      beq_iff_eq] at hcontrol
    omega
  have hread := codePoint?_writeHex c
  have hlength : (Text.writeHex c.toNat).length ≤ 4 :=
    Text.length_writeHex_le (by decide) (by omega)
  let digits := List.replicate (4 - (Text.writeHex c.toNat).length) '0' ++
    (Text.writeHex c.toNat).map Char.toUpper
  have hfour : digits.length = 4 := by
    simp [digits]
    omega
  obtain ⟨v, w, x, y, hdigits⟩ : ∃ v w x y, digits = [v, w, x, y] := by
    match digits, hfour with
    | [v, w, x, y], _ => exact ⟨v, w, x, y, rfl⟩
  rw [List.append_assoc, show _ ++ _ = [v, w, x, y] from hdigits]
  exact .code (by rw [← hdigits]; exact hread)

theorem Escape.head {written : List Char} (hwritten : Escape c written) :
    ∃ d tail, written = d :: tail ∧ d ≠ '\n' ∧ d ≠ '\r' ∧ (d = '"' → c = '"') := by
  cases hwritten with
  | short hshort => exact ⟨_, _, rfl, by decide, by decide, fun h => absurd h (by decide)⟩
  | code hcode => exact ⟨_, _, rfl, by decide, by decide, fun h => absurd h (by decide)⟩
  | plain hplain _ =>
    obtain ⟨hnewline, hreturn⟩ := ne_lineEnd_of_isPlain hplain
    exact ⟨_, _, rfl, hnewline, hreturn, id⟩

theorem escape_cases (c : Char) : Escape c (Writer.escape c) := by
  unfold Writer.escape
  split
  case h_7 _ hline _ _ hbackslash =>
    split
    · rename_i hcontrol
      simpa using escape_control hcontrol
    · rename_i hcontrol
      exact .plain (isPlain_of_not_control (by simpa using hcontrol) hline) hbackslash
  all_goals exact .short rfl

/-- How the first character within double quotes is written. -/
theorem escaped_head (free : Nat) (keepLines : Bool) (run : Nat) (c : Char) (s : List Char) :
    ∃ d tail, Writer.escaped free keepLines run (c :: s) = d :: tail ∧
      (d = '"' → c = '"' ∧ run < free) ∧ (d = '\n' → c = '\n') ∧ d ≠ '\r' := by
  by_cases hquote : c = '"'
  · by_cases hrun : run < free
    · exact ⟨'"', _, by simp [Writer.escaped, hquote, hrun]; rfl, by simp [hquote, hrun],
        by simp, by decide⟩
    · exact ⟨'\\', _, by simp [Writer.escaped, hquote, hrun]; rfl, by simp, by simp, by decide⟩
  · by_cases hline : c = '\n' ∧ keepLines
    · exact ⟨'\n', _, by simp [Writer.escaped, hline]; rfl, by simp, by simp [hline], by decide⟩
    · obtain ⟨d, tail, hwritten, hnewline, hreturn, hdquote⟩ := (escape_cases c).head
      refine ⟨d, _, by simp [Writer.escaped, hquote, hline, hwritten]; rfl, ?_, ?_, hreturn⟩
      · intro hd
        exact absurd (hdquote hd) hquote
      · intro hd
        exact absurd hd hnewline

/-! ## Double quotes on one line -/

theorem scanBasic_plain (hplain : isPlain c) (hquote : c ≠ '"') (hbackslash : c ≠ '\\')
    (hs : scanBasic s = some (text, rest)) : scanBasic (c :: s) = some (c :: text, rest) := by
  rw [scanBasic.eq_def]
  split <;> simp_all

theorem scanBasic_escape (hquote : c ≠ '"') (hs : scanBasic s = some (text, rest)) :
    scanBasic (Writer.escape c ++ s) = some (c :: text, rest) := by
  have hwritten := escape_cases c
  generalize Writer.escape c = written at hwritten
  cases hwritten with
  | short hshort =>
    unfold shortEscape? at hshort
    split at hshort
    all_goals
      cases hshort
      try simp [shortEscape?, hs]
  | code hcode => simp [hcode, hs]
  | plain hplain hbackslash => exact scanBasic_plain hplain hquote hbackslash hs

theorem scanBasic_escaped (s rest : List Char) (run : Nat) :
    scanBasic (Writer.escaped 0 false run s ++ '"' :: rest) = some (s, rest) := by
  induction s generalizing run with
  | nil => simp [Writer.escaped]
  | cons c s ih =>
    by_cases hquote : c = '"'
    · simp [Writer.escaped, hquote, shortEscape?, ih]
    · simpa [Writer.escaped, hquote] using scanBasic_escape hquote (ih 0)

theorem scan_basic (hs : ∀ t, s ≠ '"' :: '"' :: t) : scan ('"' :: s) = scanBasic s := by
  rw [scan.eq_def]
  split <;> simp_all

theorem scan_singleBasic (s : List Char) (hrest : Stops (· == '"') rest) :
    scan (Writer.singleBasic s ++ rest) = some (s, rest) := by
  have hread := scanBasic_escaped s rest 0
  have htriple : ∀ t, Writer.escaped 0 false 0 s ++ '"' :: rest ≠ '"' :: '"' :: t := by
    intro t ht
    cases s with
    | nil =>
      have hhead : rest = '"' :: t := by simpa [Writer.escaped] using ht
      exact ne_cons_of_stops hrest (by decide) t hhead
    | cons c s =>
      obtain ⟨d, tail, hwritten, hquote, -, -⟩ := escaped_head 0 false 0 c s
      rw [hwritten] at ht
      have hd : d = '"' := by simpa using congrArg List.head? ht
      exact absurd (hquote hd).2 (by omega)
  rw [show Writer.singleBasic s ++ rest = '"' :: (Writer.escaped 0 false 0 s ++ '"' :: rest) by
    simp [Writer.singleBasic], scan_basic htriple, hread]

/-! ## Single quotes on one line -/

theorem scanLiteral_append (hplain : ∀ c ∈ s, isPlain c) (hquote : '\x27' ∉ s) :
    scanLiteral (s ++ '\x27' :: rest) = some (s, rest) := by
  induction s with
  | nil => simp
  | cons c s ih =>
    have hc : c ≠ '\x27' := fun h => hquote (by simp [h])
    have hread := ih (fun d hd => hplain d (by simp [hd])) (fun h => hquote (by simp [h]))
    simp [hc, hplain c (by simp), hread]

/-! ## Three double quotes -/

theorem scanBasicLines_plain (hplain : isPlain c) (hquote : c ≠ '"') (hbackslash : c ≠ '\\')
    (hs : scanBasicLines .content s = some (text, rest)) :
    scanBasicLines .content (c :: s) = some (c :: text, rest) := by
  obtain ⟨hnewline, hreturn⟩ := ne_lineEnd_of_isPlain hplain
  rw [scanBasicLines.eq_def]
  split <;> simp_all

theorem scanBasicLines_escape (hquote : c ≠ '"')
    (hs : scanBasicLines .content s = some (text, rest)) :
    scanBasicLines .content (Writer.escape c ++ s) = some (c :: text, rest) := by
  have hwritten := escape_cases c
  generalize Writer.escape c = written at hwritten
  cases hwritten with
  | short hshort =>
    unfold shortEscape? at hshort
    split at hshort
    all_goals
      cases hshort
      try simp [shortEscape?, hs]
  | code hcode => simp [hcode, hs]
  | plain hplain hbackslash => exact scanBasicLines_plain hplain hquote hbackslash hs

theorem scanBasicLines_newline (hs : scanBasicLines .content s = some (text, rest)) :
    scanBasicLines .content ('\n' :: s) = some ('\n' :: text, rest) := by
  simp [hs]

theorem scanBasicLines_quote (htriple : ∀ t, s ≠ '"' :: '"' :: t)
    (hs : scanBasicLines .content s = some (text, rest)) :
    scanBasicLines .content ('"' :: s) = some ('"' :: text, rest) := by
  have hplain : isPlain '"' := by decide
  simp [htriple, hplain, hs]

/-- The quotes that close a text on several lines, and what follows them. -/
def closing (quote : Char) (rest : List Char) : List Char :=
  quote :: quote :: quote :: rest

/-- Up to two quotes at the end of the text are told from the closing ones. -/
theorem scanBasicLines_closing {k : Nat} (hk : k ≤ 2) (hrest : Stops (· == '"') rest) :
    scanBasicLines .content (List.replicate k '"' ++ closing '"' rest) =
      some (List.replicate k '"', rest) := by
  have hnext : ∀ t, rest ≠ '"' :: t := ne_cons_of_stops hrest (by decide)
  match k, hk with
  | 0, _ => simp [closing, hnext]
  | 1, _ => simp [closing]
  | 2, _ => simp [closing]

/-- Behind a quote that stands as it is, and is not at the end of the text with no more
than quotes behind it, come no two quotes in a row. -/
theorem escaped_noTriple {run : Nat} {tail : List Char} (hrun : 0 < run)
    (hs : s ≠ []) (hlast : run = 1 → s ≠ ['"']) (t : List Char) :
    Writer.escaped 2 true run s ++ tail ≠ '"' :: '"' :: t := by
  intro ht
  obtain ⟨c, s, rfl⟩ := List.exists_cons_of_ne_nil hs
  obtain ⟨d, after, hwritten, hquote, -, -⟩ := escaped_head 2 true run c s
  have hd : d = '"' := by
    rw [hwritten] at ht
    simpa using congrArg List.head? ht
  obtain ⟨rfl, hfree⟩ := hquote hd
  have hone : run = 1 := by omega
  subst hone
  have hmore : s ≠ [] := by
    rintro rfl
    exact hlast rfl rfl
  obtain ⟨e, s, rfl⟩ := List.exists_cons_of_ne_nil hmore
  -- A third quote in a row would have been written with a backslash.
  obtain ⟨f, after', hwritten', hquote', -, -⟩ := escaped_head 2 true 2 e s
  have hf : f = '"' := by
    rw [Writer.escaped, if_pos rfl, if_pos (by omega), hwritten'] at ht
    simpa using congrArg (fun s => s.tail.head?) ht
  exact absurd (hquote' hf).2 (by omega)

theorem scanBasicLines_escaped (s : List Char) (run : Nat) (hrest : Stops (· == '"') rest) :
    scanBasicLines .content (Writer.escaped 2 true run s ++ closing '"' rest) = some (s, rest) := by
  induction s generalizing run with
  | nil => simpa [Writer.escaped] using scanBasicLines_closing (k := 0) (by omega) hrest
  | cons c s ih =>
    by_cases hquote : c = '"'
    · subst hquote
      by_cases hrun : run < 2
      · -- At the end of the text the last quotes are read together with the closing ones.
        by_cases hend : s = []
        · simpa [Writer.escaped, hend, hrun] using
            scanBasicLines_closing (k := 1) (by omega) hrest
        · by_cases hlast : run = 0 ∧ s = ['"']
          · simpa [Writer.escaped, hlast] using
              scanBasicLines_closing (k := 2) (by omega) hrest
          · have hmore : run + 1 = 1 → s ≠ ['"'] := by
              intro hone
              have hzero : run = 0 := by omega
              simpa [hzero] using hlast
            have htriple : ∀ t, Writer.escaped 2 true (run + 1) s ++ closing '"' rest ≠
                '"' :: '"' :: t := escaped_noTriple (by omega) hend hmore
            simpa [Writer.escaped, hrun] using scanBasicLines_quote htriple (ih (run + 1))
      · simp [Writer.escaped, hrun, shortEscape?, ih]
    · by_cases hline : c = '\n'
      · simpa [Writer.escaped, hline] using scanBasicLines_newline (ih 0)
      · simpa [Writer.escaped, hquote, hline] using scanBasicLines_escape hquote (ih 0)

/-- The line end that the writer puts in front is the one that the reader drops. -/
theorem dropLineEnd_firstLine {body : List Char}
    (hnewline : body.head? = some '\n' → '\n' ∈ s) (hreturn : body.head? ≠ some '\r') :
    dropLineEnd (Writer.firstLine s ++ body) = body := by
  by_cases hline : '\n' ∈ s
  · simp [Writer.firstLine, hline, dropLineEnd]
  · have hstay : ∀ t, body ≠ '\n' :: t := by
      rintro t rfl
      exact hline (hnewline rfl)
    have hstay' : ∀ t, body ≠ '\r' :: '\n' :: t := by
      rintro t rfl
      exact hreturn rfl
    rw [Writer.firstLine, if_neg (by simpa using hline), List.nil_append, dropLineEnd.eq_def]
    split <;> simp_all

theorem scan_multiBasic (s : List Char) (hrest : Stops (· == '"') rest) :
    scan (Writer.multiBasic s ++ rest) = some (s, rest) := by
  let body := Writer.escaped 2 true 0 s ++ closing '"' rest
  have hdrop : dropLineEnd (Writer.firstLine s ++ body) = body := by
    cases s with
    | nil => exact dropLineEnd_firstLine (by simp [body, Writer.escaped, closing]) (by
        simp [body, Writer.escaped, closing])
    | cons c s =>
      obtain ⟨d, tail, hwritten, -, hnewline, hreturn⟩ := escaped_head 2 true 0 c s
      apply dropLineEnd_firstLine
      · intro hhead
        have hd : d = '\n' := by simpa [body, hwritten] using hhead
        rw [hnewline hd]
        exact List.mem_cons_self
      · simpa [body, hwritten] using hreturn
  have htext : Writer.multiBasic s ++ rest =
      '"' :: '"' :: '"' :: (Writer.firstLine s ++ body) := by
    simp [Writer.multiBasic, body, closing]
  rw [htext, scan, hdrop, scanBasicLines_escaped s 0 hrest]

/-! ## Three single quotes -/

theorem scanLiteralLines_closing {k : Nat} (hk : k ≤ 2) (hrest : Stops (· == '\x27') rest) :
    scanLiteralLines (List.replicate k '\x27' ++ closing '\x27' rest) =
      some (List.replicate k '\x27', rest) := by
  have hnext : ∀ t, rest ≠ '\x27' :: t := ne_cons_of_stops hrest (by decide)
  match k, hk with
  | 0, _ => simp [closing, hnext]
  | 1, _ => simp [closing]
  | 2, _ => simp [closing]

theorem scanLiteralLines_quote (htriple : ∀ t, s ≠ '\x27' :: '\x27' :: t)
    (hs : scanLiteralLines s = some (text, rest)) :
    scanLiteralLines ('\x27' :: s) = some ('\x27' :: text, rest) := by
  have hplain : isPlain '\x27' := by decide
  simp [htriple, hplain, hs]

theorem scanLiteralLines_char (hchar : c = '\n' ∨ isPlain c) (hquote : c ≠ '\x27')
    (hs : scanLiteralLines s = some (text, rest)) :
    scanLiteralLines (c :: s) = some (c :: text, rest) := by
  have hreturn : c ≠ '\r' := by
    rcases hchar with rfl | hplain
    · decide
    · exact (ne_lineEnd_of_isPlain hplain).2
  rw [scanLiteralLines.eq_def]
  split <;> simp_all

/-- Quotes in the text that are too few to close it. -/
theorem noTriple_of_occurs (hoccurs : Text.occurs ['\x27', '\x27', '\x27'] ('\x27' :: s) = false)
    (hend : s ≠ []) (hlast : s ≠ ['\x27']) (tail t : List Char) :
    s ++ tail ≠ '\x27' :: '\x27' :: t := by
  match s, hend, hlast with
  | [c], _, hlast =>
    intro ht
    have : c = '\x27' := by simpa using congrArg List.head? ht
    exact hlast (by rw [this])
  | c :: d :: s, _, _ =>
    intro ht
    simp only [List.cons_append, List.cons.injEq] at ht
    obtain ⟨rfl, rfl, -⟩ := ht
    simp [Text.occurs] at hoccurs

theorem scanLiteralLines_append (hchars : ∀ c ∈ s, c = '\n' ∨ isPlain c)
    (hoccurs : Text.occurs ['\x27', '\x27', '\x27'] s = false)
    (hrest : Stops (· == '\x27') rest) :
    scanLiteralLines (s ++ closing '\x27' rest) = some (s, rest) := by
  induction s with
  | nil => simpa using scanLiteralLines_closing (k := 0) (by omega) hrest
  | cons c s ih =>
    have hafter : Text.occurs ['\x27', '\x27', '\x27'] s = false := by
      rw [Text.occurs, Bool.or_eq_false_iff] at hoccurs
      exact hoccurs.2
    have hread := ih (fun d hd => hchars d (List.mem_cons_of_mem c hd)) hafter
    by_cases hquote : c = '\x27'
    · subst hquote
      by_cases hend : s = []
      · simpa [hend] using scanLiteralLines_closing (k := 1) (by omega) hrest
      · by_cases hlast : s = ['\x27']
        · simpa [hlast] using scanLiteralLines_closing (k := 2) (by omega) hrest
        · have htriple := noTriple_of_occurs hoccurs hend hlast (closing '\x27' rest)
          exact scanLiteralLines_quote htriple hread
    · exact scanLiteralLines_char (hchars c List.mem_cons_self) hquote hread

theorem scan_multiLiteral (hchars : ∀ c ∈ s, c = '\n' ∨ isPlain c)
    (hoccurs : Text.occurs ['\x27', '\x27', '\x27'] s = false)
    (hrest : Stops (· == '\x27') rest) :
    scan (Writer.multiLiteral s ++ rest) = some (s, rest) := by
  let body := s ++ closing '\x27' rest
  have hdrop : dropLineEnd (Writer.firstLine s ++ body) = body := by
    cases s with
    | nil => exact dropLineEnd_firstLine (by simp [body, closing]) (by simp [body, closing])
    | cons c s =>
      apply dropLineEnd_firstLine
      · intro hhead
        have hc : c = '\n' := by simpa [body] using hhead
        rw [hc]
        exact List.mem_cons_self
      · intro hhead
        have hc : c = '\r' := by simpa [body] using hhead
        rcases hchars c List.mem_cons_self with rfl | hplain
        · cases hc
        · exact (ne_lineEnd_of_isPlain hplain).2 hc
  have htext : Writer.multiLiteral s ++ rest =
      '\x27' :: '\x27' :: '\x27' :: (Writer.firstLine s ++ body) := by
    simp [Writer.multiLiteral, body, closing]
  rw [htext, scan, hdrop, scanLiteralLines_append hchars hoccurs hrest]

/-! ## The style that the writer picks -/

theorem scan_literal (hs : ∀ t, s ≠ '\x27' :: '\x27' :: t) :
    scan ('\x27' :: s) = scanLiteral s := by
  rw [scan.eq_def]
  split <;> simp_all

theorem scan_singleLiteral (hplain : ∀ c ∈ s, isPlain c) (hquote : '\x27' ∉ s)
    (hrest : Stops (· == '\x27') rest) :
    scan (Writer.singleLiteral s ++ rest) = some (s, rest) := by
  have htriple : ∀ t, s ++ '\x27' :: rest ≠ '\x27' :: '\x27' :: t := by
    intro t ht
    cases s with
    | nil =>
      have hhead : rest = '\x27' :: t := by simpa using ht
      exact ne_cons_of_stops hrest (by decide) t hhead
    | cons c s =>
      have hc : c = '\x27' := by simpa using congrArg List.head? ht
      exact hquote (by simp [hc])
  rw [show Writer.singleLiteral s ++ rest = '\x27' :: (s ++ '\x27' :: rest) by
    simp [Writer.singleLiteral], scan_literal htriple, scanLiteral_append hplain hquote]

def isQuote (c : Char) : Bool :=
  c == '"' || c == '\x27'

theorem scan_string (s : List Char) (hrest : Stops isQuote rest) :
    scan (Writer.string s ++ rest) = some (s, rest) := by
  have hdouble : Stops (· == '"') rest := by
    intro c hc
    have := hrest c hc
    simp_all [isQuote]
  have hsingle : Stops (· == '\x27') rest := by
    intro c hc
    have := hrest c hc
    simp_all [isQuote]
  have hplain : s.any Writer.isControl = false → ∀ c ∈ s, c = '\n' ∨ isPlain c := by
    intro hcontrol c hc
    by_cases hline : c = '\n'
    · exact .inl hline
    · have hshown : Writer.isControl c = false := by simpa using List.any_eq_false.mp hcontrol c hc
      exact .inr (isPlain_of_not_control hshown hline)
  simp only [Writer.string]
  split
  · exact scan_singleBasic s hdouble
  split
  · rename_i hliteral
    simp only [Bool.and_eq_true, Bool.not_eq_true', List.contains_eq_mem,
      decide_eq_false_iff_not] at hliteral
    obtain ⟨⟨hcontrol, hlines⟩, hquote⟩ := hliteral
    refine scan_singleLiteral (fun c hc => ?_) hquote hsingle
    rcases hplain hcontrol c hc with rfl | hc
    · exact absurd hc hlines
    · exact hc
  split
  · exact scan_multiBasic s hdouble
  split
  · rename_i hliteral
    simp only [Bool.and_eq_true, Bool.not_eq_true'] at hliteral
    exact scan_multiLiteral (hplain hliteral.1) hliteral.2 hsingle
  split
  · exact scan_multiBasic s hdouble
  · exact scan_singleBasic s hdouble

/-- Two quotes at the end stand right before the three that close the text. -/
example : Writer.string "'''\"\"".toList = "\"\"\"'''\"\"\"\"\"".toList := by decide +kernel

end WakeRouter.Toml.Quotes
