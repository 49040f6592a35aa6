import WakeRouter.Proofs.Http.Headers
import WakeRouter.Proxy.Forward

/-!
# What a forwarded request carries

A forwarded request has lost the lines that are always for one hop.  After that the lines of
the upgrade that it asks for are set, and the lines in which the router says where the request
comes from.  `all_forwarded` tells for every name which lines there are.
-/

namespace WakeRouter.Http

namespace Headers

variable {headers : Headers} {client? : Option Net.Ip} {name : String}

theorem all_stripHopByHop (headers : Headers) (name : String) :
    headers.stripHopByHop.all name = if name ∈ hopByHop then [] else headers.all name := by
  unfold stripHopByHop all
  rw [List.filter_filter]
  split
  next hlisted =>
    rw [List.filter_eq_nil_iff]
    rintro line - hline
    simp only [Bool.and_eq_true, beq_iff_eq, Bool.not_eq_true', List.contains_eq_mem,
      decide_eq_false_iff_not] at hline
    exact hline.2 (hline.1 ▸ hlisted)
  next hlisted =>
    apply List.filter_congr
    intro line _
    by_cases hline : line.name = name <;> simp [hline, hlisted]

/-- The lines of the upgrade that the headers ask for. -/
def upgradeLines (headers : Headers) : Headers :=
  match headers.upgrade? with
  | some protocol => [.ofText "connection" "upgrade", protocol]
  | none => []

/-- The addresses that the request came by, and the client behind them. -/
def route (headers : Headers) (client : Net.Ip) : List Char :=
  match (headers.find? "x-forwarded-for").bind Header.text? with
  | some prior => prior ++ ", ".toList ++ client.text
  | none => client.text

def routeLine (headers : Headers) (client : Net.Ip) : Header :=
  .ofText "x-forwarded-for" (String.ofList (headers.route client))

/-- The host that the request named, under the name that proxies use. -/
def hostLines (headers : Headers) : Headers :=
  ((headers.find? "host").map fun host => { host with name := "x-forwarded-host" }).toList

/-- The lines in which the router says where the request comes from. -/
def ownLines (headers : Headers) (client? : Option Net.Ip) : Headers :=
  headers.hostLines ++ [.ofText "x-forwarded-proto" "http"] ++
    (client?.map headers.routeLine).toList

theorem name_of_upgrade? {protocol : Header} (hupgrade : headers.upgrade? = some protocol) :
    protocol.name = "upgrade" := by
  rw [upgrade?, Option.ite_none_right_eq_some] at hupgrade
  exact name_of_find? hupgrade.2

theorem names_upgradeLines (headers : Headers) :
    headers.upgradeLines.map Header.name =
      if headers.upgrade?.isSome then ["connection", "upgrade"] else [] := by
  unfold upgradeLines
  cases hupgrade : headers.upgrade? with
  | none => rfl
  | some protocol => simp [Header.ofText, name_of_upgrade? hupgrade]

theorem names_ownLines (headers : Headers) (client? : Option Net.Ip) :
    (headers.ownLines client?).map Header.name =
      (if headers.has "host" then ["x-forwarded-host"] else []) ++ ["x-forwarded-proto"] ++
        if client?.isSome then ["x-forwarded-for"] else [] := by
  have hhost : headers.has "host" = (headers.find? "host").isSome := by
    rw [Bool.eq_iff_iff]
    simp [has, find?]
  rw [hhost, ownLines, hostLines]
  cases headers.find? "host" <;> cases client? <;> rfl

theorem mem_hopByHop_of_upgrade (headers : Headers) :
    ∀ name ∈ headers.upgradeLines.map Header.name, name ∈ hopByHop := by
  rw [names_upgradeLines]
  split <;> decide

theorem not_mem_hopByHop_of_own (headers : Headers) (client? : Option Net.Ip) :
    ∀ name ∈ (headers.ownLines client?).map Header.name, name ∉ hopByHop := by
  rw [names_ownLines]
  split <;> split <;> decide

theorem nodup_lines (headers : Headers) (client? : Option Net.Ip) :
    ((headers.upgradeLines ++ headers.ownLines client?).map Header.name).Nodup := by
  rw [List.map_append, names_upgradeLines, names_ownLines]
  split <;> split <;> split <;> decide

theorem withUpgrade_eq (headers : Headers) :
    headers.stripHopByHop.withUpgrade headers.upgrade? =
      headers.upgradeLines.foldl set headers.stripHopByHop := by
  unfold withUpgrade upgradeLines
  cases headers.upgrade? <;> rfl

/-- A line that nobody strips or sets is found as it came. -/
theorem find?_foldl_set {lines : Headers} (hnodup : (lines.map Header.name).Nodup)
    (hstripped : name ∉ hopByHop) (hset : name ∉ lines.map Header.name) :
    (lines.foldl set headers.stripHopByHop).find? name = headers.find? name := by
  apply find?_congr
  rw [all_foldl_set hnodup, if_neg hset, all_stripHopByHop, if_neg hstripped]

theorem withForwardedHost_eq {lines : Headers} (hnodup : (lines.map Header.name).Nodup)
    (hset : "host" ∉ lines.map Header.name) :
    (lines.foldl set headers.stripHopByHop).withForwardedHost =
      (lines ++ headers.hostLines).foldl set headers.stripHopByHop := by
  rw [withForwardedHost, find?_foldl_set hnodup (by decide) hset, List.foldl_append, hostLines]
  cases headers.find? "host" <;> rfl

theorem withForwardedFor_eq {lines : Headers} (hnodup : (lines.map Header.name).Nodup)
    (hset : "x-forwarded-for" ∉ lines.map Header.name) (client : Net.Ip) :
    (lines.foldl set headers.stripHopByHop).withForwardedFor client =
      (lines ++ [headers.routeLine client]).foldl set headers.stripHopByHop := by
  rw [withForwardedFor, find?_foldl_set hnodup (by decide) hset, List.foldl_append]
  rfl

/-- Each line that is set is made of lines that are there as they came. -/
theorem forwarded_eq (headers : Headers) (client? : Option Net.Ip) :
    headers.forwarded client? =
      (headers.upgradeLines ++ headers.ownLines client?).foldl set headers.stripHopByHop := by
  have hupgrade : (headers.upgradeLines.map Header.name).Nodup ∧
      "host" ∉ headers.upgradeLines.map Header.name := by
    rw [names_upgradeLines]
    split <;> decide
  have hroute : "x-forwarded-for" ∉ (headers.upgradeLines ++ headers.ownLines none).map
      Header.name := by
    rw [List.map_append, names_upgradeLines, names_ownLines]
    split <;> split <;> decide
  have hproto : (headers.stripHopByHop.withUpgrade headers.upgrade?).withForwardedHost.set
      (.ofText "x-forwarded-proto" "http") =
        (headers.upgradeLines ++ headers.ownLines none).foldl set headers.stripHopByHop := by
    rw [withUpgrade_eq, withForwardedHost_eq hupgrade.1 hupgrade.2]
    simp [ownLines]
  unfold forwarded
  rw [hproto]
  cases client? with
  | none => rfl
  | some client =>
      dsimp only
      rw [withForwardedFor_eq (nodup_lines headers none) hroute]
      simp [ownLines]

/-- Which lines of a name a forwarded request carries. -/
theorem all_forwarded (headers : Headers) (client? : Option Net.Ip) (name : String) :
    (headers.forwarded client?).all name =
      if name ∈ hopByHop then headers.upgradeLines.all name
      else if name ∈ (headers.ownLines client?).map Header.name then
        (headers.ownLines client?).all name
      else headers.all name := by
  rw [forwarded_eq, all_foldl_set (nodup_lines headers client?), all_stripHopByHop, all_append,
    List.map_append]
  simp only [List.mem_append]
  by_cases hstripped : name ∈ hopByHop
  · have hown : (headers.ownLines client?).all name = [] :=
      all_eq_nil_iff.mpr fun hmem =>
        not_mem_hopByHop_of_own headers client? name hmem hstripped
    by_cases hupgrade : name ∈ headers.upgradeLines.map Header.name
    · simp [hstripped, hupgrade, hown]
    · have hnone : headers.upgradeLines.all name = [] := all_eq_nil_iff.mpr hupgrade
      simp [hstripped, hnone, hown]
  · have hupgrade : name ∉ headers.upgradeLines.map Header.name :=
      fun hmem => hstripped (mem_hopByHop_of_upgrade headers name hmem)
    have hnone : headers.upgradeLines.all name = [] := all_eq_nil_iff.mpr hupgrade
    simp [hstripped, hupgrade, hnone]

theorem all_forwarded_route (headers : Headers) (client : Net.Ip) :
    (headers.forwarded (some client)).all "x-forwarded-for" = [headers.routeLine client] := by
  have hown : (headers.ownLines (some client)).all "x-forwarded-for" =
      [headers.routeLine client] := by
    unfold ownLines hostLines
    cases headers.find? "host" <;> rfl
  have hname : "x-forwarded-for" ∈ (headers.ownLines (some client)).map Header.name := by
    simp [names_ownLines]
  rw [all_forwarded, if_neg (by decide), if_pos hname, hown]

end Headers

theorem Request.authority_of_forward? {r sent : Request} {authority : String}
    {client? : Option Net.Ip} (hforward : r.forward? authority client? = some sent) :
    Uri.isAuthority authority.toList ∧ sent.uri.authority? = some authority := by
  rw [Request.forward?, Option.ite_none_right_eq_some] at hforward
  obtain ⟨hauthority, rfl⟩ := hforward.imp_right Option.some.inj
  exact ⟨hauthority, rfl⟩

theorem Request.headers_of_forward? {r sent : Request} {authority : String}
    {client? : Option Net.Ip} (hforward : r.forward? authority client? = some sent) :
    sent.headers = r.headers.forwarded client? := by
  rw [Request.forward?, Option.ite_none_right_eq_some] at hforward
  rw [← Option.some.inj hforward.2]

end WakeRouter.Http
