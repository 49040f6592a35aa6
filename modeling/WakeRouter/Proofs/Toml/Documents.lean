import WakeRouter.Proofs.Toml.Scalar
import WakeRouter.Proofs.Toml.Strings
import WakeRouter.Toml.Reader

/-!
# Documents of flat tables

A document as the writer lays it out: tables with a header, and below each header one
line for every key.  `Tabled` says of a text that it is such a document and which tables
it has; reading gives exactly these tables, in their order.
-/

namespace WakeRouter.Toml

open Text (Stops stops_cons takeWhile_append_of_stops dropWhile_append_of_stops)

variable {text rest s : List Char} {key name : String} {value : Value} {entries : Entries}

namespace Reader

/-! ## Values -/

/-- Up to the end of its line, the text is read as the value. -/
def Spells (text : List Char) (value : Value) : Prop :=
  ∀ rest, scanValue 79 (skipGap (text ++ '\n' :: rest)) = some (value, '\n' :: rest)

theorem scanValue_string {depth : Nat} {c : Char} (hc : c = '"' ∨ c = '\x27') :
    scanValue depth (c :: s) =
      (Quotes.scan (c :: s)).map fun (text, rest) => (.string (String.ofList text), rest) := by
  rcases hc with rfl | rfl <;> simp [scanValue]

theorem scanValue_scalar {depth : Nat} {c : Char} (hstring : c ≠ '"' ∧ c ≠ '\x27')
    (harray : c ≠ '[') (htable : c ≠ '\x7b') :
    scanValue (depth + 1) (c :: s) = Scalar.scan (c :: s) := by
  rw [scanValue.eq_def]
  split <;> simp_all

theorem string_head (s : List Char) :
    ∃ c tail, Writer.string s = c :: tail ∧ (c = '"' ∨ c = '\x27') := by
  simp only [Writer.string]
  repeat' split
  all_goals first
    | exact ⟨'"', _, rfl, .inl rfl⟩
    | exact ⟨'\x27', _, rfl, .inr rfl⟩

theorem spells_string (s : List Char) : Spells (Writer.string s) (.string (String.ofList s)) := by
  intro rest
  have hread : Quotes.scan (Writer.string s ++ '\n' :: rest) = some (s, '\n' :: rest) :=
    Quotes.scan_string s (stops_cons (by decide))
  obtain ⟨c, tail, hwritten, hquote⟩ := string_head s
  rw [hwritten, List.cons_append] at hread ⊢
  have hgap : isGap c = false := by
    rcases hquote with rfl | rfl <;> decide
  rw [skipGap, Text.dropWhile_of_stops (stops_cons hgap), scanValue_string hquote, hread]
  rfl

theorem spells_integer {n : Nat} (hn : n < 2 ^ 63) : Spells (Text.writeNumber n) (.integer n) := by
  intro rest
  have hread : Scalar.scan (Text.writeNumber n ++ '\n' :: rest) =
      some (.integer n, '\n' :: rest) :=
    Scalar.scan_writeNumber hn (stops_cons (by decide)) (by simp)
  obtain ⟨c, tail, hwritten⟩ := List.exists_cons_of_ne_nil (Text.writeNumber_ne_nil n)
  have hdigit : c.isDigit := Text.isDigit_of_mem_writeNumber (n := n) (by simp [hwritten])
  have hother : ∀ d : Char, d.isDigit = false → c ≠ d := by
    rintro d hd rfl
    rw [hdigit] at hd
    cases hd
  rw [hwritten, List.cons_append] at hread ⊢
  have hgap : isGap c = false := by
    simp [isGap, hother ' ' (by decide), hother '\t' (by decide)]
  rw [skipGap, Text.dropWhile_of_stops (stops_cons hgap),
    scanValue_scalar ⟨hother '"' (by decide), hother '\x27' (by decide)⟩ (hother '[' (by decide))
      (hother '\x7b' (by decide)), hread]

/-! ## Lines -/

/-- Keys and names that need no quotes. -/
structure IsBare (key : String) : Prop where
  ne_nil : key.toList ≠ []
  all : key.toList.all isKeyChar

instance (key : String) : Decidable (IsBare key) :=
  decidable_of_iff (key.toList ≠ [] ∧ key.toList.all isKeyChar)
    ⟨fun h => ⟨h.1, h.2⟩, fun h => ⟨h.1, h.2⟩⟩

theorem IsBare.keyChars (hkey : IsBare key) : ∀ c ∈ key.toList, isKeyChar c :=
  List.all_eq_true.mp hkey.all

theorem IsBare.cons (hkey : IsBare key) : ∃ c tail, key.toList = c :: tail ∧ isKeyChar c := by
  obtain ⟨c, tail, hwritten⟩ := List.exists_cons_of_ne_nil hkey.ne_nil
  exact ⟨c, tail, hwritten, hkey.keyChars c (by simp [hwritten])⟩

theorem ne_of_isKeyChar {c d : Char} (hc : isKeyChar c) (hd : isKeyChar d = false) : c ≠ d := by
  rintro rfl
  rw [hc] at hd
  cases hd

theorem isGap_of_isKeyChar {c : Char} (hc : isKeyChar c) : isGap c = false := by
  have hblank : c ≠ ' ' := ne_of_isKeyChar hc (by decide)
  have htab : c ≠ '\t' := ne_of_isKeyChar hc (by decide)
  simp [isGap, hblank, htab]

theorem IsBare.append_ne (hkey : IsBare key) {d : Char} (hd : isKeyChar d = false)
    (t : List Char) : key.toList ++ rest ≠ d :: t := by
  intro heq
  obtain ⟨c, tail, hwritten, hc⟩ := hkey.cons
  have hfirst : c = d := by
    rw [hwritten] at heq
    simpa using congrArg List.head? heq
  exact ne_of_isKeyChar hc hd hfirst

theorem scanKeyPart_bare (hkey : IsBare key) (hstop : Stops isKeyChar rest) :
    scanKeyPart (key.toList ++ rest) = some (key, rest) := by
  have hword := takeWhile_append_of_stops hkey.keyChars hstop
  have hafter := dropWhile_append_of_stops hkey.keyChars hstop
  rw [scanKeyPart.eq_def]
  split
  · rename_i t heq
    exact absurd heq (hkey.append_ne (by decide) t)
  · rename_i t heq
    exact absurd heq (hkey.append_ne (by decide) t)
  · simp [hword, hafter, hkey.ne_nil]

/-- One part, and no dot to another. -/
theorem scanKeyParts_bare {fuel : Nat} (hkey : IsBare key) (hstop : Stops isKeyChar rest)
    (hdot : ∀ t, skipGap rest ≠ '.' :: t) :
    scanKeyParts (fuel + 1) (key.toList ++ rest) = some ([key], skipGap rest) := by
  have hstart : skipGap (key.toList ++ rest) = key.toList ++ rest := by
    obtain ⟨c, tail, hwritten, hc⟩ := hkey.cons
    rw [hwritten]
    exact Text.dropWhile_of_stops (stops_cons (isGap_of_isKeyChar hc))
  simp [scanKeyParts, hstart, scanKeyPart_bare hkey hstop]

theorem scanKey_bare (hkey : IsBare key) (hstop : Stops isKeyChar rest)
    (hdot : ∀ t, skipGap rest ≠ '.' :: t) :
    scanKey (key.toList ++ rest) = some ([key], skipGap rest) :=
  scanKeyParts_bare hkey hstop hdot

theorem endLine?_newline (rest : List Char) : endLine? ('\n' :: rest) = some rest := by
  simp [endLine?, skipGap, isGap, skipComment]

theorem scanPair_pair (hkey : IsBare key) (htext : Spells text value) :
    scanPair (scanValue 79) (Writer.pair key text ++ rest) =
      some (([key], value), '\n' :: rest) := by
  have hwritten : Writer.pair key text ++ rest =
      key.toList ++ (' ' :: '=' :: ' ' :: (text ++ '\n' :: rest)) := by
    simp [Writer.pair]
  have hgap : skipGap (' ' :: '=' :: ' ' :: (text ++ '\n' :: rest)) =
      '=' :: ' ' :: (text ++ '\n' :: rest) := by
    simp [skipGap, isGap]
  have hstop : Stops isKeyChar (' ' :: '=' :: ' ' :: (text ++ '\n' :: rest)) :=
    stops_cons (by decide)
  have hkeyRead := scanKey_bare hkey hstop (by simp [hgap])
  have hvalue : scanValue 79 (skipGap (' ' :: (text ++ '\n' :: rest))) =
      some (value, '\n' :: rest) := by
    rw [show skipGap (' ' :: (text ++ '\n' :: rest)) = skipGap (text ++ '\n' :: rest) by
      simp [skipGap, isGap]]
    exact htext rest
  rw [hwritten, scanPair, hkeyRead, hgap]
  simp [Text.dropPrefix?, hvalue]

/-- A line that begins with a key is no header. -/
theorem scanLine_of_isKeyChar {c : Char} (hc : isKeyChar c) :
    scanLine (c :: s) = (do
      let ((key, value), rest) ← scanPair (scanValue 79) (c :: s)
      some (.pair key value, ← endLine? rest)) := by
  have hbracket : c ≠ '[' := ne_of_isKeyChar hc (by decide)
  rw [scanLine.eq_def]
  split <;> simp_all

theorem scanLine_pair (hkey : IsBare key) (htext : Spells text value) :
    scanLine (Writer.pair key text ++ rest) = some (.pair [key] value, rest) := by
  obtain ⟨c, tail, hwritten, hc⟩ := hkey.cons
  obtain ⟨after, hafter⟩ : ∃ after, Writer.pair key text ++ rest = c :: after := by
    simp [Writer.pair, hwritten]
  have hread : scanPair (scanValue 79) (Writer.pair key text ++ rest) = _ :=
    scanPair_pair hkey htext
  rw [hafter] at hread ⊢
  rw [scanLine_of_isKeyChar hc, hread]
  simp [endLine?_newline]

theorem scanLine_table (hname : IsBare name) :
    scanLine ('[' :: name.toList ++ [']', '\n'] ++ rest) = some (.table [name], rest) := by
  have hwritten : '[' :: name.toList ++ [']', '\n'] ++ rest =
      '[' :: (name.toList ++ (']' :: '\n' :: rest)) := by simp
  have hgap : skipGap (']' :: '\n' :: rest) = ']' :: '\n' :: rest := by
    simp [skipGap, isGap]
  have hstop : Stops isKeyChar (']' :: '\n' :: rest) := stops_cons (by decide)
  have hread := scanKey_bare hname hstop (by simp [hgap])
  have hbracket : ∀ t, name.toList ++ (']' :: '\n' :: rest) ≠ '[' :: t :=
    hname.append_ne (by decide)
  rw [hwritten]
  simp [scanLine, hread, hgap, Text.dropPrefix?, endLine?_newline]

/-- With fuel for its length, a text is read as these lines. -/
def Reads (s : List Char) (lines : List Line) : Prop :=
  ∀ fuel, s.length < fuel → scanLines fuel s = some lines

theorem reads_nil : Reads [] [] := by
  intro fuel hfuel
  obtain ⟨fuel, rfl⟩ : ∃ more, fuel = more + 1 := ⟨fuel - 1, by omega⟩
  rfl

variable {line : Line} {lines : List Line}

theorem reads_newline (hrest : Reads rest lines) : Reads ('\n' :: rest) lines := by
  intro fuel hfuel
  obtain ⟨fuel, rfl⟩ : ∃ more, fuel = more + 1 := ⟨fuel - 1, by omega⟩
  have hgap : skipGap ('\n' :: rest) = '\n' :: rest := by simp [skipGap, isGap]
  simpa [scanLines, hgap] using hrest fuel (by simpa using hfuel)

/-- How lines begin that say something. -/
def isLineStart (c : Char) : Bool :=
  isKeyChar c || c == '['

theorem reads_line {c : Char} (hc : isLineStart c) (hline : scanLine (c :: s) = some (line, rest))
    (hshorter : rest.length ≤ s.length) (hrest : Reads rest lines) :
    Reads (c :: s) (line :: lines) := by
  intro fuel hfuel
  obtain ⟨fuel, rfl⟩ : ∃ more, fuel = more + 1 := ⟨fuel - 1, by omega⟩
  have hother : ∀ d : Char, isLineStart d = false → c ≠ d := by
    rintro d hd rfl
    rw [hc] at hd
    cases hd
  have hgap : skipGap (c :: s) = c :: s := by
    apply Text.dropWhile_of_stops (stops_cons _)
    simp [isGap, hother ' ' (by decide), hother '\t' (by decide)]
  -- What is left is shorter, so the fuel that is left is enough for it.
  have hmore : scanLines fuel rest = some lines := hrest fuel (by simp at hfuel; omega)
  rw [scanLines, hgap]
  split
  · rename_i heq
    cases heq
  · rename_i heq
    cases heq
    exact absurd rfl (hother '\n' (by decide))
  · rename_i heq
    cases heq
    exact absurd rfl (hother '\r' (by decide))
  · rename_i heq
    cases heq
    exact absurd rfl (hother '#' (by decide))
  · simp [hline, hmore]

/-! ## Tables -/

/-- Lines that give bare keys their values, and the entries that they make. -/
inductive Renders : List (List Char) → Entries → Prop
  | nil : Renders [] []
  | cons {key : String} {text : List Char} {value : Value} {lines : List (List Char)}
      {entries : Entries} (hkey : IsBare key) (htext : Spells text value)
      (hrest : Renders lines entries) :
      Renders (Writer.pair key text :: lines) ((key, value) :: entries)

theorem Renders.append {lines more : List (List Char)} {after : Entries}
    (hlines : Renders lines entries) (hmore : Renders more after) :
    Renders (lines ++ more) (entries ++ after) := by
  induction hlines with
  | nil => exact hmore
  | cons hkey htext _ ih => exact .cons hkey htext ih

/-- What a reader makes of the lines below a header. -/
def pairLines (entries : Entries) : List Line :=
  entries.map fun e => .pair [e.1] e.2

theorem reads_renders {written : List (List Char)} (hwritten : Renders written entries)
    (hrest : Reads rest lines) : Reads (written.flatten ++ rest) (pairLines entries ++ lines) := by
  induction hwritten with
  | nil => exact hrest
  | @cons key text value written entries hkey htext _ ih =>
    obtain ⟨c, tail, hfirst, hc⟩ := hkey.cons
    have hstart : isLineStart c := by simp [isLineStart, hc]
    have hline : scanLine (Writer.pair key text ++ (written.flatten ++ rest)) =
        some (.pair [key] value, written.flatten ++ rest) := scanLine_pair hkey htext
    obtain ⟨after, hafter⟩ : ∃ after, Writer.pair key text = c :: after := by
      simp [Writer.pair, hfirst]
    rw [hafter] at hline
    simpa [hafter, pairLines] using reads_line hstart hline (by simp) ih

/-- A text that is laid out as tables, each with bare and different keys. -/
inductive Tabled : List Char → List (String × Entries) → Prop
  | nil : Tabled [] []
  | blank {text : List Char} {tables : List (String × Entries)} (hrest : Tabled text tables) :
      Tabled ('\n' :: text) tables
  | table {name : String} {written : List (List Char)} {entries : Entries} {text : List Char}
      {tables : List (String × Entries)} (hname : IsBare name) (hwritten : Renders written entries)
      (hkeys : (entries.map Prod.fst).Nodup) (hrest : Tabled text tables) :
      Tabled (Writer.table name written ++ text) ((name, entries) :: tables)

/-- What a reader makes of a document of tables. -/
def tableLines (tables : List (String × Entries)) : List Line :=
  tables.flatMap fun table => .table [table.1] :: pairLines table.2

theorem reads_tabled {tables : List (String × Entries)} (htext : Tabled text tables) :
    Reads text (tableLines tables) := by
  induction htext with
  | nil => exact reads_nil
  | blank _ ih => exact reads_newline ih
  | @table name written entries text tables hname hwritten _ _ ih =>
    have hpairs := reads_renders hwritten ih
    have hheader : scanLine ('[' :: name.toList ++ [']', '\n'] ++ (written.flatten ++ text)) =
        some (.table [name], written.flatten ++ text) := scanLine_table hname
    have hline := reads_line (by decide) hheader (by simp; omega) hpairs
    simpa [Writer.table, tableLines, List.flatMap_cons] using hline

/-! ## Putting the tables together -/

def pairsOf (entries : Entries) : List (List String × Value) :=
  entries.map fun e => ([e.1], e.2)

def sectionsOf (tables : List (String × Entries)) : List Section :=
  tables.map fun table => (.table [table.1], pairsOf table.2)

theorem sections_pairLines (entries : Entries) {lines : List Line} {parts : List Section}
    (hlines : sections lines = ([], parts)) :
    sections (pairLines entries ++ lines) = (pairsOf entries, parts) := by
  induction entries with
  | nil => exact hlines
  | cons e entries ih =>
    simp only [pairLines, List.map_cons, List.cons_append] at ih ⊢
    simp [sections, ih, pairsOf]

theorem sections_tableLines (tables : List (String × Entries)) :
    sections (tableLines tables) = ([], sectionsOf tables) := by
  induction tables with
  | nil => rfl
  | cons table tables ih =>
    have hpairs := sections_pairLines table.2 ih
    simp only [tableLines, List.flatMap_cons, List.cons_append] at hpairs ⊢
    simp [sections, hpairs, sectionsOf]

theorem find?_eq_none (hkey : key ∉ entries.map Prod.fst) : entries.find? key = none := by
  rw [Entries.find?, List.lookup_eq_none_iff]
  intro e he
  have hne : key ≠ e.1 := by
    rintro rfl
    exact hkey (List.mem_map_of_mem he)
  simp [hne]

theorem addKeys_pairsOf {before : Entries}
    (hkeys : (before.map Prod.fst ++ entries.map Prod.fst).Nodup) :
    before.addKeys (pairsOf entries) = some (before ++ entries) := by
  induction entries generalizing before with
  | nil => simp [pairsOf, Entries.addKeys]
  | cons e entries ih =>
    have hfresh : before.find? e.1 = none := by
      apply find?_eq_none
      intro hmem
      exact (List.nodup_append.mp hkeys).2.2 e.1 hmem e.1 (by simp) rfl
    have hadd : before.addKey true e.2 [e.1] = some (before ++ [e]) := by
      simp [Entries.addKey, hfresh]
    have hrest : (before ++ [e]).addKeys (pairsOf entries) = some (before ++ [e] ++ entries) :=
      ih (by simpa using hkeys)
    simp only [Entries.addKeys, pairsOf, List.map_cons, List.foldlM_cons, hadd] at hrest ⊢
    simpa using hrest

theorem foldlM_sectionsOf {tables : List (String × Entries)} {before : Entries}
    (hnames : (before.map Prod.fst ++ tables.map Prod.fst).Nodup)
    (hkeys : ∀ table ∈ tables, (table.2.map Prod.fst).Nodup) :
    (sectionsOf tables).foldlM addSection before =
      some (before ++ tables.map fun table => (table.1, .table .header table.2)) := by
  induction tables generalizing before with
  | nil => simp [sectionsOf]
  | cons table tables ih =>
    have hfresh : before.find? table.1 = none := by
      apply find?_eq_none
      intro hmem
      exact (List.nodup_append.mp hnames).2.2 table.1 hmem table.1 (by simp) rfl
    have hinner : Entries.addKeys [] (pairsOf table.2) = some ([] ++ table.2) :=
      addKeys_pairsOf (by simpa using hkeys table List.mem_cons_self)
    have hadd : addSection before (.table [table.1], pairsOf table.2) =
        some (before ++ [(table.1, .table .header table.2)]) := by
      simp [addSection, Entries.addTable, hfresh, hinner]
    let opened := before ++ [(table.1, .table .header table.2)]
    have hrest : (sectionsOf tables).foldlM addSection opened =
        some (opened ++ tables.map fun table => (table.1, .table .header table.2)) :=
      ih (by simpa [opened] using hnames)
        (fun other hother => hkeys other (List.mem_cons_of_mem table hother))
    simp only [sectionsOf, List.map_cons, List.foldlM_cons, hadd] at hrest ⊢
    simpa [opened] using hrest

theorem Tabled.nodup_keys {tables : List (String × Entries)} (htext : Tabled text tables) :
    ∀ table ∈ tables, (table.2.map Prod.fst).Nodup := by
  induction htext with
  | nil => simp
  | blank _ ih => exact ih
  | table _ _ hkeys _ ih =>
    intro table htable
    rcases List.mem_cons.mp htable with rfl | hmem
    · exact hkeys
    · exact ih table hmem

theorem Tabled.head? {tables : List (String × Entries)} (htext : Tabled text tables) :
    text.head? ≠ some '\ufeff' := by
  cases htext with
  | nil => simp
  | blank => simp
  | table => simp [Writer.table]

end Reader

/-- A document of tables is read as its tables. -/
theorem read?_tabled {tables : List (String × Entries)} (htext : Reader.Tabled text tables)
    (hnames : (tables.map Prod.fst).Nodup) :
    read? (String.ofList text) =
      some (tables.map fun table => (table.1, .table .header table.2)) := by
  have hlines := Reader.reads_tabled htext (text.length + 1) (by omega)
  have hmark : ∀ t, text ≠ '\ufeff' :: t := by
    rintro t rfl
    exact htext.head? rfl
  have hbuild : (Reader.sectionsOf tables).foldlM Reader.addSection [] =
      some ([] ++ tables.map fun table => (table.1, .table .header table.2)) :=
    Reader.foldlM_sectionsOf (by simpa using hnames) htext.nodup_keys
  simp [read?, hlines, Reader.build?, Reader.sections_tableLines, Entries.addKeys, hbuild]

end WakeRouter.Toml
