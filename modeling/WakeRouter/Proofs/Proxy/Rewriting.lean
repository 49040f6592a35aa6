import WakeRouter.Proofs.Proxy.ForwardedFor
import WakeRouter.Proofs.Proxy.SingleHop

/-!
# What a rewritten request keeps and loses

A request that goes on to a machine is rewritten in one go: lines are taken out, and lines are
put in, some of them under the names of those that were taken out.  It keeps its method and its
body, and every line whose name the router has nothing to do with.  An upgrade is what a list of
options and a further line ask for together, and `AsksUpgrade` says when they do without saying
how the list is read.
-/

namespace WakeRouter

namespace Text

/-- The list names the option, which is given in lowercase: between two commas, or a comma and
an end of the list, there is nothing else but blanks. -/
def Lists (list option : List Char) : Prop :=
  ∃ before left word right after, list = before ++ (left ++ word ++ right) ++ after ∧
    (before = [] ∨ ∃ earlier, before = earlier ++ [',']) ∧
    (after = [] ∨ ∃ later, after = ',' :: later) ∧
    (∀ c ∈ left ++ right, isBlank c) ∧ word.map Char.toLower = option

variable {c : Char} {s piece word : List Char}

theorem mem_pieces_of_between {before after : List Char} (hplain : c ∉ piece)
    (hbefore : before = [] ∨ ∃ earlier, before = earlier ++ [c])
    (hafter : after = [] ∨ ∃ later, after = c :: later) :
    piece ∈ pieces c (before ++ piece ++ after) := by
  have hfrom : piece ∈ pieces c (piece ++ after) := by
    rcases hafter with rfl | ⟨later, rfl⟩
    · simp [pieces_of_not_mem hplain]
    · simp [pieces_append, pieces_of_not_mem hplain]
  rcases hbefore with rfl | ⟨earlier, rfl⟩
  · simpa using hfrom
  · have hcut : earlier ++ [c] ++ piece ++ after = earlier ++ c :: (piece ++ after) := by simp
    rw [hcut, pieces_append]
    exact List.mem_append_right _ hfrom

theorem exists_between_of_mem_pieces (hpiece : piece ∈ pieces c s) :
    c ∉ piece ∧ ∃ before after, s = before ++ piece ++ after ∧
      (before = [] ∨ ∃ earlier, before = earlier ++ [c]) ∧
      (after = [] ∨ ∃ later, after = c :: later) := by
  -- The text is cut at its first `c`; the pieces behind it are those of a shorter text.
  induction hlength : s.length using Nat.strongRecOn generalizing s with
  | ind n ih =>
      by_cases hc : c ∈ s
      · obtain ⟨first, rest, rfl, hfirst⟩ := List.eq_append_cons_of_mem hc
        rw [pieces_append, pieces_of_not_mem hfirst] at hpiece
        rcases List.mem_append.mp hpiece with hpiece | hpiece
        · obtain rfl := List.mem_singleton.mp hpiece
          exact ⟨hfirst, [], c :: rest, by simp, .inl rfl, .inr ⟨rest, rfl⟩⟩
        · have hshorter : rest.length < n := by
            rw [← hlength, List.length_append, List.length_cons]
            omega
          obtain ⟨hplain, before, after, rfl, hbefore, hafter⟩ := ih _ hshorter hpiece rfl
          refine ⟨hplain, first ++ c :: before, after, by simp, .inr ?_, hafter⟩
          rcases hbefore with rfl | ⟨earlier, rfl⟩
          · exact ⟨first, rfl⟩
          · exact ⟨first ++ c :: earlier, by simp⟩
      · rw [pieces_of_not_mem hc, List.mem_singleton] at hpiece
        subst hpiece
        exact ⟨hc, [], [], by simp, .inl rfl, .inl rfl⟩

theorem toLower_of_isBlank (hblank : isBlank c) : c.toLower = c := by
  simp only [isBlank, Bool.or_eq_true, Bool.and_eq_true, decide_eq_true_eq] at hblank
  unfold Char.toLower
  split
  next hupper =>
    have hlow : 65 ≤ c.toNat := hupper.1
    have hhigh : c.toNat ≤ 90 := hupper.2
    omega
  next => rfl

/-- The options of a list are its pieces, in lowercase and without the blanks around them. -/
theorem lists_iff {option : List Char}
    (hplain : ∀ c ∈ option, isBlank c = false ∧ c ≠ ',') :
    Lists s option ↔ ∃ piece ∈ pieces ',' s, (trim piece).map Char.toLower = option := by
  constructor
  · rintro ⟨before, left, word, right, after, rfl, hbefore, hafter, hblank, hword⟩
    have hlower : ∀ c ∈ word, c.toLower ∈ option := fun c hc =>
      hword ▸ List.mem_map_of_mem hc
    have hclear : ∀ c ∈ word, isBlank c = false := by
      intro c hc
      cases hc' : isBlank c with
      | false => rfl
      | true =>
          have hlisted := (hplain _ (hlower c hc)).1
          rwa [toLower_of_isBlank hc', hc'] at hlisted
    have hcomma : ',' ∉ left ++ word ++ right := by
      intro hc
      rw [List.append_assoc, List.mem_append, List.mem_append] at hc
      rcases hc with hc | hc | hc
      · exact absurd (hblank _ (List.mem_append_left _ hc)) (by decide)
      · exact (hplain _ (hlower _ hc)).2 rfl
      · exact absurd (hblank _ (List.mem_append_right _ hc)) (by decide)
    have hfirst : ∀ c, word.head? = some c → isBlank c = false := fun c hc =>
      hclear c (List.mem_of_mem_head? hc)
    have hlast : ∀ c, word.getLast? = some c → isBlank c = false := fun c hc =>
      hclear c (List.mem_of_getLast? hc)
    refine ⟨left ++ word ++ right, mem_pieces_of_between hcomma hbefore hafter, ?_⟩
    rw [trim_padded hblank hfirst hlast, hword]
  · rintro ⟨piece, hpiece, hword⟩
    obtain ⟨-, before, after, hs, hbefore, hafter⟩ := exists_between_of_mem_pieces hpiece
    obtain ⟨left, right, hpadded, hblank⟩ := exists_blanks_trim piece
    exact ⟨before, left, trim piece, right, after, hpadded ▸ hs, hbefore, hafter, hblank, hword⟩

end Text

namespace Http

namespace Header

/-- A line that can be one, with its name in lowercase. -/
def IsValid (line : Header) : Prop :=
  make? line.name line.value = some line

theorem isValid_iff {line : Header} :
    line.IsValid ↔ (isValidName line.name.toList ∧
      String.ofList (line.name.toList.map Char.toLower) = line.name) ∧
        line.value.all isValueByte := by
  rw [IsValid, make?, Option.ite_none_right_eq_some, Bool.and_eq_true, Option.some.injEq]
  constructor
  · rintro ⟨⟨hname, hvalue⟩, hline⟩
    exact ⟨⟨hname, congrArg Header.name hline⟩, hvalue⟩
  · rintro ⟨⟨hname, hlower⟩, hvalue⟩
    refine ⟨⟨hname, hvalue⟩, ?_⟩
    rw [hlower]

/-- The names that the router puts on lines can be names, with any value that can be one. -/
theorem isValid_of_name {line : Header}
    (hname : line.name ∈ ["x-forwarded-host", "x-forwarded-for"])
    (hvalue : line.value.all isValueByte) : line.IsValid := by
  have hnames : ∀ name ∈ ["x-forwarded-host", "x-forwarded-for"],
      isValidName name.toList ∧ String.ofList (name.toList.map Char.toLower) = name := by
    decide
  exact isValid_iff.mpr ⟨hnames line.name hname, hvalue⟩

/-- A text can be a value. -/
theorem isValueByte_of_text? {line : Header} {text : List Char} (htext : line.text? = some text) :
    line.value.all isValueByte := by
  rw [text?, asText?, Option.ite_none_right_eq_some, List.all_eq_true] at htext
  rw [List.all_eq_true]
  intro b hb
  have htext := htext.1 b hb
  simp only [isTextByte, Bool.or_eq_true, Bool.and_eq_true, decide_eq_true_eq] at htext
  simp only [isValueByte, Bool.or_eq_true, Bool.and_eq_true, decide_eq_true_eq, bne_iff_ne]
  exact htext.imp_right fun hrange => ⟨hrange.1, UInt8.ne_of_lt hrange.2⟩

end Header

namespace Headers

variable {headers : Headers} {name : String}

/-- The headers ask for an upgrade: a line that is a text has it among the options of the
connection, and a line says what to upgrade to. -/
def AsksUpgrade (headers : Headers) : Prop :=
  (∃ line ∈ headers, line.name = "connection" ∧
    ∃ list, line.text? = some list ∧ Text.Lists list "upgrade".toList) ∧
  ∃ line ∈ headers, line.name = "upgrade"

theorem listsToken_iff {token : String}
    (hplain : ∀ c ∈ token.toList, Text.isBlank c = false ∧ c ≠ ',') :
    headers.listsToken name token ↔ ∃ line ∈ headers, line.name = name ∧
      ∃ list, line.text? = some list ∧ Text.Lists list token.toList := by
  unfold listsToken
  rw [List.any_eq_true]
  constructor
  · rintro ⟨line, hline, hlisted⟩
    obtain ⟨hmem, hname⟩ := mem_all.mp hline
    cases htext : line.text? with
    | none => simp [htext] at hlisted
    | some list =>
        refine ⟨line, hmem, hname, list, htext, (Text.lists_iff hplain).mpr ?_⟩
        simpa [htext] using hlisted
  · rintro ⟨line, hmem, hname, list, htext, hlisted⟩
    refine ⟨line, mem_all.mpr ⟨hmem, hname⟩, ?_⟩
    simpa [htext] using (Text.lists_iff hplain).mp hlisted

theorem asksUpgrade_iff : headers.AsksUpgrade ↔ headers.upgrade?.isSome := by
  have htoken : headers.listsToken "connection" "upgrade" ↔ _ :=
    listsToken_iff (by simp [Text.isBlank])
  rw [AsksUpgrade, ← htoken, upgrade?]
  cases headers.listsToken "connection" "upgrade" <;> simp [find?]

theorem upgradeLines_of_asks (hasks : headers.AsksUpgrade) :
    ∃ protocol, (headers.all "upgrade").head? = some protocol ∧
      headers.upgradeLines = [.ofText "connection" "upgrade", protocol] := by
  obtain ⟨protocol, hprotocol⟩ := Option.isSome_iff_exists.mp (asksUpgrade_iff.mp hasks)
  refine ⟨protocol, ?_, by rw [upgradeLines, hprotocol]⟩
  rw [upgrade?, Option.ite_none_right_eq_some, find?_eq_head?] at hprotocol
  exact hprotocol.2

theorem upgradeLines_of_not_asks (hasks : ¬headers.AsksUpgrade) : headers.upgradeLines = [] := by
  rw [asksUpgrade_iff, Option.not_isSome_iff_eq_none] at hasks
  rw [upgradeLines, hasks]

theorem all_upgradeLines_of_asks (hasks : headers.AsksUpgrade) :
    headers.upgradeLines.all "connection" = [.ofText "connection" "upgrade"] ∧
      ∃ protocol, (headers.all "upgrade").head? = some protocol ∧
        headers.upgradeLines.all "upgrade" = [protocol] := by
  obtain ⟨protocol, hprotocol, hlines⟩ := upgradeLines_of_asks hasks
  have hname : protocol.name = "upgrade" := (mem_all.mp (List.mem_of_mem_head? hprotocol)).2
  rw [hlines]
  refine ⟨?_, protocol, hprotocol, ?_⟩ <;> simp [all, Header.ofText, hname]

theorem isValid_upgradeLines (hvalid : ∀ line ∈ headers, line.IsValid) :
    ∀ line ∈ headers.upgradeLines, line.IsValid := by
  intro line hline
  by_cases hasks : headers.AsksUpgrade
  · obtain ⟨protocol, hprotocol, hlines⟩ := upgradeLines_of_asks hasks
    rw [hlines] at hline
    simp only [List.mem_cons, List.not_mem_nil, or_false] at hline
    rcases hline with rfl | rfl
    · rfl
    · exact hvalid line (mem_all.mp (List.mem_of_mem_head? hprotocol)).1
  · simp [upgradeLines_of_not_asks hasks] at hline

/-- Whatever the client sent, the addresses that the router passes on can be a line. -/
theorem isValid_routeLine (headers : Headers) (client : Net.Ip) :
    (headers.routeLine client).IsValid :=
  Header.isValid_of_name (by simp [routeLine, Header.ofText])
    (Header.isValueByte_of_text? (headers.text?_routeLine client))

theorem isValid_hostLines (hvalid : ∀ line ∈ headers, line.IsValid) :
    ∀ line ∈ headers.hostLines, line.IsValid := by
  intro line hline
  rw [hostLines, Option.mem_toList, Option.map_eq_some_iff] at hline
  obtain ⟨host, hhost, rfl⟩ := hline
  have hmem : host ∈ headers := List.mem_of_find?_eq_some hhost
  exact Header.isValid_of_name (by simp) (Header.isValid_iff.mp (hvalid host hmem)).2

theorem isValid_ownLines (hvalid : ∀ line ∈ headers, line.IsValid) (client? : Option Net.Ip) :
    ∀ line ∈ headers.ownLines client?, line.IsValid := by
  intro line hline
  simp only [ownLines, List.mem_append, List.mem_singleton, Option.mem_toList,
    Option.map_eq_some_iff] at hline
  rcases hline with (hline | rfl) | ⟨client, -, rfl⟩
  · exact isValid_hostLines hvalid line hline
  · rfl
  · exact headers.isValid_routeLine client

/-- The names under which the router says where a request comes from. -/
def routerNames : List String :=
  ["x-forwarded-host", "x-forwarded-proto", "x-forwarded-for"]

theorem mem_routerNames_of_own (headers : Headers) (client? : Option Net.Ip) :
    ∀ name ∈ (headers.ownLines client?).map Header.name, name ∈ routerNames := by
  rw [names_ownLines]
  split <;> split <;> decide

end Headers

namespace Request

/-- What has become of a request on its way to the machine at `authority`. -/
structure Rewritten (r sent : Request) (authority : String) (client? : Option Net.Ip) : Prop where
  method : sent.method = r.method
  version : sent.version = r.version
  body : sent.body = r.body
  uri : sent.uri = ⟨some "http", some authority, some (r.uri.pathAndQuery?.getD "/")⟩
  upgrade : r.headers.AsksUpgrade →
    sent.headers.all "connection" = [.ofText "connection" "upgrade"] ∧
      ∃ protocol, (r.headers.all "upgrade").head? = some protocol ∧
        sent.headers.all "upgrade" = [protocol]
  noUpgrade : ¬r.headers.AsksUpgrade →
    sent.headers.all "connection" = [] ∧ sent.headers.all "upgrade" = []
  stripped : ∀ name ∈ Headers.hopByHop, name ≠ "connection" → name ≠ "upgrade" →
    sent.headers.all name = []
  passed : ∀ name ∉ Headers.hopByHop, name ∉ Headers.routerNames →
    sent.headers.all name = r.headers.all name
  route : ∀ client, client? = some client →
    ∃ line, sent.headers.all "x-forwarded-for" = [line] ∧ line.IsValid
  valid : (∀ line ∈ r.headers, line.IsValid) → ∀ line ∈ sent.headers, line.IsValid

/-- No request can make the rewriting fail, and it touches nothing else. -/
theorem rewritten_of_isAuthority {authority : String}
    (hauthority : Uri.isAuthority authority.toList) (r : Request) (client? : Option Net.Ip) :
    ∃ sent, r.forward? authority client? = some sent ∧ r.Rewritten sent authority client? := by
  have hpasses : r.headers.PassesOn r.headers.upgradeLines (r.headers.ownLines client?)
      (r.headers.forwarded client?) :=
    r.headers.all_forwarded client?
  have hhop : ∀ name ∈ Headers.hopByHop,
      (r.headers.forwarded client?).all name = r.headers.upgradeLines.all name := by
    intro name hname
    rw [hpasses name, if_pos hname]
  refine ⟨_, if_pos hauthority, ?_⟩
  constructor
  case method | version | body | uri => rfl
  case upgrade =>
    intro hasks
    rw [hhop "connection" (by decide), hhop "upgrade" (by decide)]
    exact Headers.all_upgradeLines_of_asks hasks
  case noUpgrade =>
    intro hasks
    rw [hhop "connection" (by decide), hhop "upgrade" (by decide),
      Headers.upgradeLines_of_not_asks hasks]
    exact ⟨rfl, rfl⟩
  case stripped =>
    intro name hname hconnection hupgrade
    rw [hhop name hname, Headers.all_eq_nil_iff, Headers.names_upgradeLines]
    split <;> simp [hconnection, hupgrade]
  case passed =>
    intro name hname hrouter
    have hown : name ∉ (r.headers.ownLines client?).map Header.name :=
      fun hmem => hrouter (r.headers.mem_routerNames_of_own client? name hmem)
    rw [hpasses name, if_neg hname, if_neg hown]
  case route =>
    rintro client rfl
    exact ⟨_, r.headers.all_forwarded_route client, r.headers.isValid_routeLine client⟩
  case valid =>
    intro hvalid line hline
    rcases hpasses.mem_of_mem hline with hmem | hmem
    · exact Headers.isValid_upgradeLines hvalid line hmem
    · rcases List.mem_append.mp hmem with hmem | hmem
      · exact hvalid line hmem
      · exact Headers.isValid_ownLines hvalid client? line hmem

/-- A request that asks for an upgrade among other options, and comes by an absolute target. -/
def socketRequest : Request where
  method := "GET"
  uri := ⟨some "https", some "beta.local", some "/socket?room=1"⟩
  version := .v11
  headers := [.ofText "host" "alpha.local", .ofText "connection" "close",
    .ofText "connection" "keep-alive ,\tUpGrade", .ofText "upgrade" "websocket",
    .ofText "upgrade" "h2c", .ofText "te" "trailers", .ofText "cookie" "a=1",
    ⟨"x-forwarded-for", [0xe9]⟩, .ofText "cookie" "b=2"]
  body := .empty

theorem rewritten_socketRequest :
    Uri.isAuthority "10.0.0.5:8080".toList ∧
      ∃ sent, socketRequest.forward? "10.0.0.5:8080" (some (.v4 ⟨192, 0, 2, 7⟩)) = some sent ∧
        sent.uri = ⟨some "http", some "10.0.0.5:8080", some "/socket?room=1"⟩ ∧
        sent.headers.all "connection" = [.ofText "connection" "upgrade"] ∧
        sent.headers.all "upgrade" = [.ofText "upgrade" "websocket"] ∧
        sent.headers.all "te" = [] ∧
        sent.headers.all "cookie" = [.ofText "cookie" "a=1", .ofText "cookie" "b=2"] ∧
        ∀ line ∈ sent.headers, line.IsValid := by
  have hauthority : Uri.isAuthority "10.0.0.5:8080".toList := by decide
  obtain ⟨sent, hforward, hsent⟩ :=
    rewritten_of_isAuthority hauthority socketRequest (some (.v4 ⟨192, 0, 2, 7⟩))
  have hasks : socketRequest.headers.AsksUpgrade := Headers.asksUpgrade_iff.mpr (by decide)
  obtain ⟨hconnection, protocol, hprotocol, hupgrade⟩ := hsent.upgrade hasks
  obtain rfl : Header.ofText "upgrade" "websocket" = protocol := Option.some.inj hprotocol
  have hvalid : ∀ line ∈ socketRequest.headers, line.IsValid := by
    unfold Header.IsValid
    decide
  exact ⟨hauthority, sent, hforward, hsent.uri, hconnection, hupgrade,
    hsent.stripped "te" (by decide) (by decide) (by decide),
    hsent.passed "cookie" (by decide) (by decide), hsent.valid hvalid⟩

end Request

end Http

end WakeRouter
