import WakeRouter.Proofs.Net.Ip
import WakeRouter.Proofs.Proxy.Forward
import WakeRouter.Proofs.Proxy.HostKey

/-!
# The addresses that a request came by

`x-forwarded-for` lists the addresses that a request came by, on any number of lines.  The
router reads the first of these lines, and puts one line in the place of all: the list of the
first with the client behind it.  What the other lines list is lost.
-/

namespace WakeRouter

namespace Text

/-- What a list holds: what stands between its commas, without the blanks around it.  Where
nothing stands, the list holds nothing. -/
def entries (s : List Char) : List (List Char) :=
  ((pieces ',' s).map trim).filter fun entry => !entry.isEmpty

theorem pieces_ne_nil (c : Char) (s : List Char) : pieces c s ≠ [] := by
  cases s with
  | nil => simp [pieces]
  | cons x s =>
      unfold pieces
      split
      · simp
      · split <;> simp

theorem pieces_append (c : Char) (s t : List Char) :
    pieces c (s ++ c :: t) = pieces c s ++ pieces c t := by
  induction s with
  | nil => simp [pieces]
  | cons x s ih =>
      by_cases hx : x = c
      · simp [pieces, hx, ih]
      · obtain ⟨p, ps, hs⟩ := List.exists_cons_of_ne_nil (pieces_ne_nil c s)
        simp [pieces, hx, ih, hs]

theorem entries_append (s t : List Char) : entries (s ++ ',' :: t) = entries s ++ entries t := by
  simp [entries, pieces_append]

theorem entries_of_not_mem {s : List Char} (hcomma : ',' ∉ s) (hblank : trim s ≠ []) :
    entries s = [trim s] := by
  simp [entries, pieces_of_not_mem hcomma, hblank]

end Text

namespace Net.Ip

theorem isVisible_of_mem_text {ip : Ip} {c : Char} (hc : c ∈ ip.text) : isVisible c := by
  have hbounds := Ipv6.bounds_of_isAddressChar (isAddressChar_of_mem_text hc)
  rw [isVisible_iff]
  omega

theorem comma_not_mem_text (ip : Ip) : ',' ∉ ip.text := by
  intro hc
  have hbounds := Ipv6.bounds_of_isAddressChar (isAddressChar_of_mem_text hc)
  exact absurd hbounds.1 (by decide)

theorem trim_text (ip : Ip) : Text.trim ip.text = ip.text := by
  have hblank : ∀ c ∈ ip.text, Text.isBlank c = false := by
    intro c hc
    have hbounds := Ipv6.bounds_of_isAddressChar (isAddressChar_of_mem_text hc)
    simp only [Text.isBlank, Bool.or_eq_false_iff, Bool.and_eq_false_iff, decide_eq_false_iff_not]
    omega
  exact Text.trim_eq_self (fun c hc => hblank c (List.mem_of_mem_head? hc))
    (fun c hc => hblank c (List.mem_of_getLast? hc))

/-- An address by itself, or behind a blank, is a list of one. -/
theorem entries_text (ip : Ip) : Text.entries ip.text = [ip.text] := by
  rw [Text.entries_of_not_mem ip.comma_not_mem_text (by rw [trim_text]; exact ip.text_ne_nil),
    trim_text]

theorem entries_blank_text (ip : Ip) : Text.entries (' ' :: ip.text) = [ip.text] := by
  have htrim : Text.trim (' ' :: ip.text) = ip.text := ip.trim_text
  rw [Text.entries_of_not_mem (by simp [ip.comma_not_mem_text])
    (by rw [htrim]; exact ip.text_ne_nil), htrim]

end Net.Ip

namespace Http

/-- What a line lists; a line that is no text lists nothing. -/
def Header.entries (line : Header) : List (List Char) :=
  (line.text?.map Text.entries).getD []

namespace Headers

/-- What all lines of a name list, in their order. -/
def entries (headers : Headers) (name : String) : List (List Char) :=
  (headers.all name).flatMap Header.entries

variable {headers : Headers} {client : Net.Ip}

theorem isVisible_of_text? {line : Header} {text : List Char} (htext : line.text? = some text) :
    ∀ c ∈ text, isVisible c := by
  have hvisible : ∀ n < 128, Header.isTextByte (UInt8.ofNat n) → isVisible (Char.ofNat n) := by
    decide
  rw [Header.text?, Header.asText?, Option.ite_none_right_eq_some, List.all_eq_true] at htext
  obtain ⟨hbytes, htext⟩ := htext
  rw [← Option.some.inj htext]
  intro c hc
  obtain ⟨b, hb, rfl⟩ := List.mem_map.mp hc
  have hbyte := hbytes b hb
  have hlow : b.toNat < 128 := by
    simp only [Header.isTextByte, Bool.or_eq_true, Bool.and_eq_true, beq_iff_eq,
      decide_eq_true_eq, ← UInt8.toNat_inj, UInt8.lt_iff_toNat_lt] at hbyte
    have htab : (9 : UInt8).toNat = 9 := rfl
    have hdelete : (0x7f : UInt8).toNat = 0x7f := rfl
    omega
  exact hvisible b.toNat hlow (by rwa [UInt8.ofNat_toNat])

theorem text?_ofText {text : List Char} (hvisible : ∀ c ∈ text, isVisible c) (name : String) :
    (Header.ofText name (String.ofList text)).text? = some text := by
  simp [Header.ofText, Header.text?, asText?_toUtf8 hvisible]

theorem isVisible_of_mem_route {c : Char} (hc : c ∈ headers.route client) : isVisible c := by
  have hbetween : ∀ c ∈ ", ".toList, isVisible c := List.all_eq_true.mp (by decide)
  unfold route at hc
  split at hc
  next prior hprior =>
    obtain ⟨first, -, htext⟩ := Option.bind_eq_some_iff.mp hprior
    rcases List.mem_append.mp hc with hc | hc
    · rcases List.mem_append.mp hc with hc | hc
      · exact isVisible_of_text? htext c hc
      · exact hbetween c hc
    · exact Net.Ip.isVisible_of_mem_text hc
  next => exact Net.Ip.isVisible_of_mem_text hc

/-- The line that the router sets is a text, whatever the client sent. -/
theorem text?_routeLine (headers : Headers) (client : Net.Ip) :
    (headers.routeLine client).text? = some (headers.route client) :=
  text?_ofText (fun _ hc => isVisible_of_mem_route hc) "x-forwarded-for"

/-- It lists what the first line did, and then the client. -/
theorem entries_route (headers : Headers) (client : Net.Ip) :
    Text.entries (headers.route client) =
      ((headers.all "x-forwarded-for").take 1).flatMap Header.entries ++ [client.text] := by
  unfold route
  rw [find?_eq_head?]
  cases headers.all "x-forwarded-for" with
  | nil => exact client.entries_text
  | cons first later =>
      cases htext : first.text? with
      | none => simp [htext, Header.entries, client.entries_text]
      | some prior =>
          simp [htext, Header.entries, Text.entries_append, client.entries_blank_text]

end Headers

namespace Request

/-- The addresses that go out are those of the first line, and the client.  Nothing of the way
that the request came is lost just if no line after the first lists anything. -/
theorem route_complete_iff {authority : String} (hauthority : Uri.isAuthority authority.toList)
    (r : Request) (client : Net.Ip) :
    ∃ r' line, r.forward? authority (some client) = some r' ∧
      r'.headers.all "x-forwarded-for" = [line] ∧ line.text?.isSome ∧
      line.entries = ((r.headers.all "x-forwarded-for").take 1).flatMap Header.entries ++
        [client.text] ∧
      (r'.headers.entries "x-forwarded-for" =
          r.headers.entries "x-forwarded-for" ++ [client.text] ↔
        ∀ later ∈ (r.headers.all "x-forwarded-for").tail, later.entries = []) := by
  let line := r.headers.routeLine client
  have hline : (r.headers.forwarded (some client)).all "x-forwarded-for" = [line] :=
    r.headers.all_forwarded_route client
  have hentries : line.entries = ((r.headers.all "x-forwarded-for").take 1).flatMap
      Header.entries ++ [client.text] := by
    rw [Header.entries, Headers.text?_routeLine]
    exact Headers.entries_route r.headers client
  have hsplit : r.headers.entries "x-forwarded-for" =
      ((r.headers.all "x-forwarded-for").take 1).flatMap Header.entries ++
        (r.headers.all "x-forwarded-for").tail.flatMap Header.entries := by
    rw [Headers.entries, ← List.flatMap_append, ← List.drop_one, List.take_append_drop]
  refine ⟨_, line, if_pos hauthority, hline, ?_, hentries, ?_⟩
  · rw [Headers.text?_routeLine]
    rfl
  · rw [Headers.entries, hline, hsplit, List.flatMap_singleton, hentries, List.append_left_inj,
      List.self_eq_append_right, List.flatMap_eq_nil_iff]

/-- A request that came by three addresses, which two of its lines list. -/
def twoRoutes : Request where
  method := "GET"
  uri := ⟨none, none, some "/"⟩
  version := .v11
  headers := [.ofText "host" "alpha.local", .ofText "x-forwarded-for" "203.0.113.9, 198.51.100.7",
    .ofText "x-forwarded-for" "192.0.2.44"]
  body := .empty

def routedClient : Net.Ip := .v4 ⟨192, 0, 2, 7⟩

theorem route_complete_iff_twoRoutes :
    Uri.isAuthority "10.0.0.5:8080".toList ∧
      ∃ r' line, twoRoutes.forward? "10.0.0.5:8080" (some routedClient) = some r' ∧
        r'.headers.all "x-forwarded-for" = [line] ∧
        line.entries = ["203.0.113.9".toList, "198.51.100.7".toList, "192.0.2.7".toList] := by
  have hauthority : Uri.isAuthority "10.0.0.5:8080".toList := by decide
  obtain ⟨r', line, hforward, hline, -, hentries, -⟩ :=
    route_complete_iff hauthority twoRoutes routedClient
  exact ⟨hauthority, r', line, hforward, hline, hentries⟩

/-- The third of the addresses is lost. -/
theorem not_route_twoRoutes :
    ∃ r', twoRoutes.forward? "10.0.0.5:8080" (some routedClient) = some r' ∧
      (∀ line ∈ twoRoutes.headers.all "x-forwarded-for", line.text?.isSome) ∧
      twoRoutes.headers.entries "x-forwarded-for" =
        ["203.0.113.9".toList, "198.51.100.7".toList, "192.0.2.44".toList] ∧
      r'.headers.entries "x-forwarded-for" =
        ["203.0.113.9".toList, "198.51.100.7".toList, "192.0.2.7".toList] ∧
      r'.headers.entries "x-forwarded-for" ≠
        twoRoutes.headers.entries "x-forwarded-for" ++ [routedClient.text] :=
  ⟨_, rfl, by decide, by decide, by decide, by decide⟩

end Request

end Http

end WakeRouter
