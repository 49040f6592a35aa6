import WakeRouter.Proxy.RequestKey

/-!
# How hosts are written

A host may have blanks around it and a port behind it, and a literal address has colons of its
own.  The key is found by two looks from the right, for a colon and for a bracket; here it is told
by how the text is put together, and a host is found to have one key however it is written.
-/

namespace WakeRouter

variable {host key name port left right : List Char}

/-! ## What is cut off -/

/-- What is left of a host without blanks around it when its port is cut off: what stands before
the last colon, unless a bracket is closed behind it. -/
inductive CutsTo : (host key : List Char) → Prop
  | port {name port : List Char} (hcolon : ':' ∉ port) (hbracket : ']' ∉ port) :
      CutsTo (name ++ ':' :: port) name
  | whole {host : List Char} (hnone : ∀ name port, host = name ++ ':' :: port → ':' ∉ port →
      ']' ∈ port) : CutsTo host host

/-- There is one last colon at most. -/
theorem eq_of_append_colon {name' port' : List Char}
    (hsame : name ++ ':' :: port = name' ++ ':' :: port') (hport : ':' ∉ port)
    (hport' : ':' ∉ port') : name = name' ∧ port = port' := by
  have hsplit : Text.splitLast ':' (name ++ ':' :: port) = some (name, port) :=
    Text.splitLast_eq_some_iff.mpr ⟨rfl, hport⟩
  rw [Text.splitLast_eq_some_iff.mpr ⟨hsame, hport'⟩] at hsplit
  simpa [eq_comm] using hsplit

theorem CutsTo.unique {key' : List Char} (hcuts : CutsTo host key) (hcuts' : CutsTo host key') :
    key = key' := by
  cases hcuts with
  | @port _ port hcolon hbracket =>
      generalize hhost : key ++ ':' :: port = host at hcuts'
      cases hcuts' with
      | port hcolon' => exact (eq_of_append_colon hhost.symm hcolon' hcolon).1.symm
      | whole hnone => exact absurd (hnone _ _ hhost.symm hcolon) hbracket
  | whole hnone =>
      cases hcuts' with
      | port hcolon hbracket => exact absurd (hnone _ _ rfl hcolon) hbracket
      | whole => rfl

theorem CutsTo.isPrefix (hcuts : CutsTo host key) : key <+: host := by
  cases hcuts with
  | port => exact List.prefix_append _ _
  | whole => exact List.prefix_refl _

theorem exists_cutsTo (host : List Char) : ∃ key, CutsTo (Text.trim host) key ∧
    hostKey? host = if key = [] then none else some key := by
  unfold hostKey?
  simp only [List.isEmpty_iff]
  generalize Text.trim host = trimmed
  refine ⟨_, ?_, rfl⟩
  cases hsplit : Text.splitLast ':' trimmed with
  | none =>
      refine .whole fun name port hcut => ?_
      exact absurd (hcut ▸ by simp) (Text.splitLast_eq_none_iff.mp hsplit)
  | some split =>
      obtain ⟨name, port⟩ := split
      obtain ⟨rfl, hcolon⟩ := Text.splitLast_eq_some_iff.mp hsplit
      simp only [List.contains_eq_mem, decide_eq_true_eq]
      split
      next hbracket =>
        refine .whole fun name' port' hcut hcolon' => ?_
        exact (eq_of_append_colon hcut hcolon hcolon').2 ▸ hbracket
      next hbracket => exact .port hcolon hbracket

theorem hostKey?_eq_some_iff :
    hostKey? host = some key ↔ key ≠ [] ∧ CutsTo (Text.trim host) key := by
  obtain ⟨cut, hcuts, hkey⟩ := exists_cutsTo host
  rw [hkey, Option.ite_none_left_eq_some, Option.some.injEq]
  constructor
  · rintro ⟨hne, rfl⟩
    exact ⟨hne, hcuts⟩
  · rintro ⟨hne, hcuts'⟩
    obtain rfl := hcuts.unique hcuts'
    exact ⟨hne, rfl⟩

/-- Without a key are blanks by themselves, and a port that no host stands before. -/
theorem hostKey?_eq_none_iff : hostKey? host = none ↔ Text.trim host = [] ∨
    ∃ port, Text.trim host = ':' :: port ∧ ':' ∉ port ∧ ']' ∉ port := by
  obtain ⟨cut, hcuts, hkey⟩ := exists_cutsTo host
  have hnone : hostKey? host = none ↔ cut = [] := by simp [hkey]
  rw [hnone]
  generalize Text.trim host = trimmed at hcuts
  constructor
  · rintro rfl
    cases hcuts with
    | port hcolon hbracket => exact .inr ⟨_, rfl, hcolon, hbracket⟩
    | whole => exact .inl rfl
  · rintro (rfl | ⟨port, rfl, hcolon, hbracket⟩)
    · exact List.prefix_nil.mp hcuts.isPrefix
    · have hnothing : CutsTo ([] ++ ':' :: port) [] := .port hcolon hbracket
      exact hcuts.unique hnothing

/-! ## Spellings of one host -/

/-- A host by itself: a name, or a literal address in its brackets. -/
inductive IsBareHost : List Char → Prop
  | name {name : List Char} (hne : name ≠ []) (hcolon : ':' ∉ name)
      (htrim : Text.trim name = name) : IsBareHost name
  | literal (address : List Char) : IsBareHost ('[' :: (address ++ [']']))

/-- The host with blanks around it, and with a port behind it or without. -/
inductive IsSpelling (name : List Char) : List Char → Prop
  | bare {left right : List Char} (hblank : ∀ c ∈ left ++ right, Text.isBlank c) :
      IsSpelling name (left ++ name ++ right)
  | port {left port right : List Char} (hblank : ∀ c ∈ left ++ right, Text.isBlank c)
      (hcolon : ':' ∉ port) (hbracket : ']' ∉ port) :
      IsSpelling name (left ++ (name ++ ':' :: port) ++ right)

theorem IsBareHost.ne_nil (hname : IsBareHost name) : name ≠ [] := by
  cases hname with
  | name hne => exact hne
  | literal => simp

theorem IsBareHost.trim_eq (hname : IsBareHost name) : Text.trim name = name := by
  cases hname with
  | name _ _ htrim => exact htrim
  | literal address =>
      apply Text.trim_eq_self
      · rintro c ⟨⟩
        decide
      · intro c hc
        rw [← List.cons_append, List.getLast?_concat] at hc
        cases hc
        decide

/-- A literal ends with its bracket, behind all of its colons. -/
theorem IsBareHost.cutsTo_self (hname : IsBareHost name) : CutsTo name name := by
  refine .whole fun front port hcut hcolon => ?_
  cases hname with
  | name _ hnone => exact absurd (hcut ▸ by simp) hnone
  | literal address =>
      have hlast : (':' :: port).getLast? = some ']' := by
        have hends : (front ++ ':' :: port).getLast? = some ']' := by
          rw [← hcut, ← List.cons_append, List.getLast?_concat]
        rwa [List.getLast?_append, List.getLast?_cons, Option.some_or, ← List.getLast?_cons]
          at hends
      simpa using List.mem_of_getLast? hlast

/-- The blanks behind a port may be taken for its own. -/
theorem trim_append_colon (name port : List Char) :
    Text.trim (name ++ ':' :: port) = Text.trimStart name ++ ':' :: Text.trimEnd port := by
  rw [Text.trim, Text.trimStart, Text.dropWhile_append_cons rfl, Text.trimEnd, Text.trimEnd,
    List.reverse_append, List.reverse_cons, List.append_assoc, List.singleton_append,
    Text.dropWhile_append_cons rfl]
  simp [Text.trimStart]

theorem trimStart_of_trim (htrim : Text.trim name = name) : Text.trimStart name = name := by
  apply Text.trimStart_eq_self
  intro c hc
  rw [← htrim] at hc
  exact Text.isBlank_of_head?_trim hc

theorem mem_of_mem_trimEnd {c : Char} (hc : c ∈ Text.trimEnd port) : c ∈ port := by
  rw [Text.trimEnd, List.mem_reverse] at hc
  exact List.mem_reverse.mp ((List.dropWhile_sublist _).mem hc)

/-- Neither the port nor blanks make a difference. -/
theorem hostKey?_of_spelling (hname : IsBareHost name) (hhost : IsSpelling name host) :
    hostKey? host = some name := by
  refine hostKey?_eq_some_iff.mpr ⟨hname.ne_nil, ?_⟩
  cases hhost with
  | bare hblank =>
      rw [Text.trim_append_blanks _ hblank, hname.trim_eq]
      exact hname.cutsTo_self
  | port hblank hcolon hbracket =>
      rw [Text.trim_append_blanks _ hblank, trim_append_colon, trimStart_of_trim hname.trim_eq]
      exact .port (fun hc => hcolon (mem_of_mem_trimEnd hc)) fun hc =>
        hbracket (mem_of_mem_trimEnd hc)

/-! ## The host of a request -/

variable {headers : Http.Headers}

/-- The target counts only where no text is found in the first line that names a host. -/
theorem requestKey?_of_text (htext : (headers.find? "host").bind Http.Header.text? = some host)
    (uri : Http.Uri) : requestKey? headers uri = (hostKey? host).map String.ofList := by
  simp [requestKey?, requestHost?, htext]

theorem requestKey?_of_no_text (htext : (headers.find? "host").bind Http.Header.text? = none)
    (uri : Http.Uri) : requestKey? headers uri =
      (uri.authority?.bind fun authority => hostKey? authority.toList).map String.ofList := by
  simp only [requestKey?, requestHost?, htext, Option.none_or, Option.bind_map]
  rfl

/-- The first `Host` line of the request is a spelling of the name. -/
def SpellsHost (headers : Http.Headers) (name : List Char) : Prop :=
  ∃ host, (headers.find? "host").bind Http.Header.text? = some host ∧ IsSpelling name host

theorem requestKey?_of_spelling (hname : IsBareHost name) (hspells : SpellsHost headers name)
    (uri : Http.Uri) : requestKey? headers uri = some (String.ofList name) := by
  obtain ⟨host, htext, hhost⟩ := hspells
  rw [requestKey?_of_text htext, hostKey?_of_spelling hname hhost, Option.map_some]

end WakeRouter
