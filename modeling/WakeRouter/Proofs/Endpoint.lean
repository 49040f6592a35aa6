import WakeRouter.Proofs.ControlPlane.Calls
import WakeRouter.Proofs.Text.Number

/-!
# Addresses of the control plane

An address is written as a scheme, a host, a port and a path.  Whether there is a port, which
host a certificate has to name and where the path begins are found by scans of their own, from
either end, for colons, brackets and slashes; here they are shown to agree with the parts of which
the address was put together.
-/

namespace WakeRouter.Endpoint

/-! ## Addresses by their parts -/

/-- How a host is written that has to show a certificate for `name`: by that name, or as a literal
in brackets. -/
inductive IsHost : (host name : List Char) → Prop
  | name {name} (hname : name ≠ []) (hplain : ∀ c ∈ name, c ∉ [':', '[', ']', '/'])
    (htrim : Text.trim name = name) : IsHost name name
  | literal {name} (hplain : ∀ c ∈ name, c ∉ ['[', ']', '/']) :
    IsHost ('[' :: (name ++ [']'])) name

/-- The parts of a written address. -/
structure Written where
  tls : Bool
  host : List Char
  port? : Option (List Char)
  path : List Char

def schemeText (tls : Bool) : List Char :=
  if tls then "https://".toList else "http://".toList

namespace Written

def portText (a : Written) : List Char :=
  match a.port? with
  | some digits => ':' :: digits
  | none => []

def authority (a : Written) : List Char :=
  a.host ++ a.portText

def text (a : Written) : List Char :=
  schemeText a.tls ++ (a.authority ++ a.path)

/-- Where to connect to. -/
def connectAddress (a : Written) : List Char :=
  match a.port? with
  | some _ => a.authority
  | none => a.host ++ if a.tls then ":443".toList else ":80".toList

/-- The endpoint that the address stands for, with the name of its host and its base path. -/
def endpoint (a : Written) (name base : List Char) : Endpoint :=
  if a.tls then
    .https (String.ofList a.connectAddress) (String.ofList a.authority) (String.ofList name)
      (String.ofList base)
  else .http (String.ofList a.connectAddress) (String.ofList a.authority) (String.ofList base)

structure IsProper (a : Written) (name : List Char) : Prop where
  host : IsHost a.host name
  port : ∀ digits, a.port? = some digits → ∀ c ∈ digits, c.isDigit
  path : a.path = [] ∨ a.path.head? = some '/'
  last : ∀ c, a.path.getLast? = some c → Text.isBlank c = false

end Written

/-! ## Hosts and ports -/

namespace IsHost

variable {host name digits : List Char}

theorem ne_nil (hhost : IsHost host name) : host ≠ [] := by
  cases hhost with
  | name hname => exact hname
  | literal => simp

theorem slash_not_mem (hhost : IsHost host name) : '/' ∉ host := by
  cases hhost with
  | name _ hplain => exact fun hslash => hplain _ hslash (by decide)
  | literal hplain =>
      have hslash : '/' ∉ name := fun hslash => hplain _ hslash (by decide)
      simp [hslash]

theorem hasPort_eq_true (host : List Char) (hdigits : ∀ c ∈ digits, c.isDigit) :
    hasPort (host ++ ':' :: digits) = true := by
  have hbracket : ']' ∉ digits := Text.not_mem_of_digits hdigits rfl
  have hsplit : Text.splitLast ':' (host ++ ':' :: digits) = some (host, digits) :=
    Text.splitLast_eq_some_iff.mpr ⟨rfl, Text.not_mem_of_digits hdigits rfl⟩
  simp [hasPort, hsplit, hbracket]

/-- A colon in a literal stands before its closing bracket. -/
theorem hasPort_eq_false (hhost : IsHost host name) : hasPort host = false := by
  unfold hasPort
  cases hsplit : Text.splitLast ':' host with
  | none => rfl
  | some split =>
      obtain ⟨hcut, -⟩ := Text.splitLast_eq_some_iff.mp hsplit
      cases hhost with
      | name _ hplain => exact absurd (hplain ':' (hcut ▸ by simp)) (by decide)
      | literal hplain =>
          have hlast : (':' :: split.2).getLast? = some ']' := by
            have hends := congrArg List.getLast? hcut
            rw [← List.cons_append, List.getLast?_concat, List.getLast?_append] at hends
            simpa using hends.symm
          have hbracket : ']' ∈ split.2 := by
            cases List.mem_cons.mp (List.mem_of_getLast? hlast) with
            | inl hcolon => cases hcolon
            | inr hlater => exact hlater
          simpa using hbracket

theorem hostOf_literal (rest : List Char) (hbracket : ']' ∉ name) :
    hostOf ('[' :: (name ++ ']' :: rest)) = name := by
  have hname : ∀ c ∈ name, c != ']' := fun c hc => by simpa using ne_of_mem_of_not_mem hc hbracket
  simp [hostOf, List.takeWhile_append_of_pos hname]

theorem hostOf_name {authority : List Char} (hplain : '[' ∉ authority) : hostOf authority =
    match Text.splitLast ':' authority with
    | some (host, _) => host
    | none => authority := by
  unfold hostOf
  split
  · simp at hplain
  · rfl

theorem hostOf_eq (hhost : IsHost host name) : hostOf host = name := by
  cases hhost with
  | name _ hplain =>
      have hbracket : '[' ∉ host := fun hbracket => hplain _ hbracket (by decide)
      have hcolon : ':' ∉ host := fun hcolon => hplain _ hcolon (by decide)
      rw [hostOf_name hbracket, Text.splitLast_eq_none_iff.mpr hcolon]
  | literal hplain => exact hostOf_literal [] fun hbracket => hplain _ hbracket (by decide)

theorem hostOf_port (hhost : IsHost host name) (hdigits : ∀ c ∈ digits, c.isDigit) :
    hostOf (host ++ ':' :: digits) = name := by
  cases hhost with
  | name _ hplain =>
      have hbracket : '[' ∉ host ++ ':' :: digits := by
        have hhost : '[' ∉ host := fun hbracket => hplain _ hbracket (by decide)
        have hport : '[' ∉ digits := Text.not_mem_of_digits hdigits rfl
        simp [hhost, hport]
      rw [hostOf_name hbracket,
        Text.splitLast_eq_some_iff.mpr ⟨rfl, Text.not_mem_of_digits hdigits rfl⟩]
  | literal hplain =>
      have hbracket : ']' ∉ name := fun hbracket => hplain _ hbracket (by decide)
      simpa using hostOf_literal (':' :: digits) hbracket

end IsHost

/-! ## Slashes at the end of a path -/

theorem exists_eq_trimSlashes_append (path : List Char) :
    ∃ slashes, path = trimSlashes path ++ List.replicate slashes '/' := by
  refine ⟨(path.reverse.takeWhile (· == '/')).length, ?_⟩
  have hslashes : path.reverse.takeWhile (· == '/') =
      List.replicate (path.reverse.takeWhile (· == '/')).length '/' :=
    List.eq_replicate_of_mem fun c hc =>
      eq_of_beq (List.all_eq_true.mp List.all_takeWhile c hc)
  rw [trimSlashes, ← List.reverse_replicate, ← hslashes, ← List.reverse_append,
    List.takeWhile_append_dropWhile, List.reverse_reverse]

theorem getLast?_trimSlashes (path : List Char) : (trimSlashes path).getLast? ≠ some '/' := by
  intro hlast
  rw [trimSlashes, List.getLast?_reverse] at hlast
  simpa [hlast] using List.head?_dropWhile_not (· == '/') path.reverse

theorem trimSlashes_concat (path : List Char) :
    trimSlashes (path ++ ['/']) = trimSlashes path := by
  simp [trimSlashes]

theorem head?_trimSlashes {path : List Char} (hpath : path = [] ∨ path.head? = some '/') :
    trimSlashes path = [] ∨ (trimSlashes path).head? = some '/' := by
  obtain ⟨slashes, hslashes⟩ := exists_eq_trimSlashes_append path
  cases hbase : trimSlashes path with
  | nil => exact .inl rfl
  | cons c base =>
      rw [hbase] at hslashes
      rcases hpath with rfl | hhead
      · cases hslashes
      · rw [hslashes] at hhead
        exact .inr hhead

/-! ## Reading -/

section Reading

variable {home : Option String} {address : String} {authority path rest : List Char}

theorem splitAuthority_append (hauthority : authority ≠ []) (hslash : '/' ∉ authority)
    (hpath : path = [] ∨ path.head? = some '/') :
    splitAuthority (authority ++ path) = .ok (authority, trimSlashes path) := by
  have hplain : ∀ c ∈ authority, c != '/' := fun c hc => by
    simpa using ne_of_mem_of_not_mem hc hslash
  have hrest : path.takeWhile (· != '/') = [] ∧ path.dropWhile (· != '/') = path := by
    rcases hpath with rfl | hhead
    · exact ⟨rfl, rfl⟩
    · obtain ⟨rest, rfl⟩ := List.head?_eq_some_iff.mp hhead
      exact ⟨rfl, rfl⟩
  simp [splitAuthority, List.takeWhile_append_of_pos hplain, List.dropWhile_append_of_pos hplain,
    hrest, hauthority]

/-- A slash at the end is a path of its own or one more slash at the end of the path. -/
theorem splitAuthority_concat (rest : List Char) :
    splitAuthority (rest ++ ['/']) = splitAuthority rest := by
  have hauthority : (rest ++ ['/']).takeWhile (· != '/') = rest.takeWhile (· != '/') :=
    Text.takeWhile_append_cons (by decide) ..
  have hpath : (rest ++ ['/']).dropWhile (· != '/') = rest.dropWhile (· != '/') ++ ['/'] :=
    Text.dropWhile_append_cons (by decide) ..
  simp only [splitAuthority, hauthority, hpath, trimSlashes_concat]

/-- The endpoint of an authority and a base path. -/
def ofAuthority (tls : Bool) (authority base : List Char) : Endpoint :=
  if tls then
    .https (String.ofList (withDefaultPort authority 443)) (String.ofList authority)
      (String.ofList (hostOf authority)) (String.ofList base)
  else
    .http (String.ofList (withDefaultPort authority 80)) (String.ofList authority)
      (String.ofList base)

theorem read_schemeText {tls : Bool}
    (haddress : Text.trim address.toList = schemeText tls ++ rest) :
    read home address =
      (splitAuthority rest).map fun (authority, base) => ofAuthority tls authority base := by
  unfold read
  rw [haddress]
  cases tls with
  | false =>
      have htls : Text.dropPrefix? "https://".toList (schemeText false ++ rest) = none := by rfl
      have hplain : Text.dropPrefix? "http://".toList (schemeText false ++ rest) = some rest :=
        Text.dropPrefix?_eq_some_iff.mpr rfl
      simp only [htls, hplain]
      cases splitAuthority rest <;> rfl
  | true =>
      have htls : Text.dropPrefix? "https://".toList (schemeText true ++ rest) = some rest :=
        Text.dropPrefix?_eq_some_iff.mpr rfl
      simp only [htls]
      cases splitAuthority rest <;> rfl

/-- One more slash at the end of an address that is read makes no difference. -/
theorem read_concat {tls : Bool} (htrim : Text.trim address.toList = address.toList)
    (haddress : address.toList = schemeText tls ++ rest) :
    read home (address ++ "/") = read home address := by
  have hslash : (address ++ "/").toList = schemeText tls ++ (rest ++ ['/']) := by
    simp [haddress]
  have htrimSlash : Text.trim (address ++ "/").toList = (address ++ "/").toList := by
    apply Text.trim_eq_self
    · rw [hslash]
      cases tls <;> simp [schemeText, Text.isBlank]
    · rw [hslash, ← List.append_assoc, List.getLast?_concat]
      rintro c ⟨⟩
      decide
  rw [read_schemeText (htrimSlash.trans hslash), read_schemeText (htrim.trans haddress),
    splitAuthority_concat]

theorem exists_of_splitAuthority {base : List Char}
    (hsplit : splitAuthority rest = .ok (authority, base)) :
    ∃ path, (path = [] ∨ path.head? = some '/') ∧ base = trimSlashes path := by
  unfold splitAuthority at hsplit
  simp only at hsplit
  split at hsplit
  · cases hsplit
  · cases hsplit
    refine ⟨rest.dropWhile (· != '/'), ?_, rfl⟩
    cases hpath : rest.dropWhile (· != '/') with
    | nil => exact .inl rfl
    | cons c path =>
        have hslash : c = '/' := by
          simpa [hpath] using List.head?_dropWhile_not (· != '/') rest
        exact .inr (by rw [hslash]; rfl)

end Reading

namespace Written

variable {a : Written} {name : List Char}

theorem ofAuthority_eq (ha : a.IsProper name) (base : List Char) :
    ofAuthority a.tls a.authority base = a.endpoint name base := by
  have hparts : hostOf a.authority = name ∧ ∀ port : Nat, withDefaultPort a.authority port =
      if a.port?.isSome then a.authority else a.host ++ ':' :: Text.writeNumber port := by
    unfold authority portText withDefaultPort
    cases hport : a.port? with
    | none => simp [ha.host.hostOf_eq, ha.host.hasPort_eq_false]
    | some digits =>
        have hdigits := ha.port digits hport
        simp [ha.host.hostOf_port hdigits, IsHost.hasPort_eq_true a.host hdigits]
  unfold ofAuthority endpoint connectAddress
  rw [hparts.1, hparts.2, hparts.2]
  cases a.tls <;> cases a.port? <;> rfl

theorem isBlank_of_getLast?_host (hhost : IsHost a.host name) {c : Char}
    (hc : a.host.getLast? = some c) : Text.isBlank c = false := by
  generalize a.host = host at hhost hc
  cases hhost with
  | name _ _ htrim =>
      rw [← htrim] at hc
      exact Text.isBlank_of_getLast?_trim hc
  | literal =>
      rw [← List.cons_append, List.getLast?_concat] at hc
      cases hc
      decide

theorem isBlank_of_getLast?_authority (ha : a.IsProper name) {c : Char}
    (hc : a.authority.getLast? = some c) : Text.isBlank c = false := by
  unfold authority portText at hc
  cases hport : a.port? with
  | none =>
      rw [hport, List.append_nil] at hc
      exact isBlank_of_getLast?_host ha.host hc
  | some digits =>
      rw [hport, List.getLast?_append, List.getLast?_cons] at hc
      cases hlast : digits.getLast? with
      | none =>
          rw [hlast] at hc
          cases hc
          decide
      | some digit =>
          rw [hlast] at hc
          cases hc
          exact Text.isBlank_of_isDigit (ha.port digits hport _ (List.mem_of_getLast? hlast))

theorem trim_text (ha : a.IsProper name) {left right : List Char}
    (hblank : ∀ c ∈ left ++ right, Text.isBlank c) :
    Text.trim (left ++ a.text ++ right) = a.text := by
  apply Text.trim_padded hblank
  · unfold text schemeText
    cases a.tls <;> simp [Text.isBlank]
  · intro c hc
    have hauthority : a.authority.getLast? ≠ none := by
      simp [authority, ha.host.ne_nil]
    rw [text, List.getLast?_append, List.getLast?_append] at hc
    cases hpath : a.path.getLast? with
    | some last =>
        rw [hpath] at hc
        cases hc
        exact ha.last _ hpath
    | none =>
        cases hlast : a.authority.getLast? with
        | none => exact absurd hlast hauthority
        | some last =>
            rw [hpath, hlast] at hc
            cases hc
            exact isBlank_of_getLast?_authority ha hlast

theorem read_text {home : Option String} (ha : a.IsProper name) {left right : List Char}
    (hblank : ∀ c ∈ left ++ right, Text.isBlank c) :
    read home (String.ofList (left ++ a.text ++ right)) =
      .ok (a.endpoint name (trimSlashes a.path)) := by
  have hauthority : a.authority ≠ [] := by
    simp [authority, ha.host.ne_nil]
  have hslash : '/' ∉ a.authority := by
    intro hslash
    rcases List.mem_append.mp hslash with hslash | hslash
    · exact ha.host.slash_not_mem hslash
    · unfold portText at hslash
      cases hport : a.port? with
      | none => simp [hport] at hslash
      | some digits =>
          rw [hport] at hslash
          cases List.mem_cons.mp hslash with
          | inl hcolon => cases hcolon
          | inr hdigit => exact absurd (ha.port digits hport _ hdigit) (by decide)
  have haddress : Text.trim (String.ofList (left ++ a.text ++ right)).toList =
      schemeText a.tls ++ (a.authority ++ a.path) := by
    rw [String.toList_ofList, trim_text ha hblank, text]
  rw [read_schemeText haddress, splitAuthority_append hauthority hslash ha.path]
  exact congrArg _ (ofAuthority_eq ha _)

end Written

/-! ## What the client makes of an endpoint -/

/-- Base path and path of a call are joined without a slash too many or too few. -/
structure JoinsPaths (c : Client) : Prop where
  rooted : c.basePath = "" ∨ c.basePath.toList.head? = some '/'
  unended : c.basePath.toList.getLast? ≠ some '/'
  path : ∀ call, ∃ first rest, (c.path call).toList = '/' :: first :: rest ∧ first ≠ '/'
  target : ∀ peer call, ∀ received ∈ (c.call peer call).1,
    received.target.toList.head? = some '/' ∧
      received.target.toList = Http.Uri.upToHash (c.basePath ++ c.path call).toList

theorem exists_socket_of_read {home : Option String} {address : String} {endpoint : Endpoint}
    (hscheme : ∀ tls rest, Text.trim address.toList ≠ schemeText tls ++ rest)
    (hread : read home address = .ok endpoint) : ∃ path, endpoint = .socket path := by
  have hdrop : ∀ tls, Text.dropPrefix? (schemeText tls) (Text.trim address.toList) = none := by
    intro tls
    rw [Option.eq_none_iff_forall_not_mem]
    exact fun rest hrest => hscheme tls rest (Text.dropPrefix?_eq_some_iff.mp hrest)
  have htls : Text.dropPrefix? "https://".toList (Text.trim address.toList) = none := hdrop true
  have hplain : Text.dropPrefix? "http://".toList (Text.trim address.toList) = none := hdrop false
  unfold read at hread
  simp only [htls, hplain] at hread
  split at hread
  · cases hread
  split at hread
  · split at hread
    · cases hread
      exact ⟨_, rfl⟩
    · cases hread
  · cases hread
    exact ⟨_, rfl⟩

theorem basePath_of_read {home : Option String} {address : String} {c : Client}
    (hread : read home address = .ok c.endpoint) :
    ∃ path, (path = [] ∨ path.head? = some '/') ∧ c.basePath.toList = trimSlashes path := by
  by_cases hscheme : ∃ tls rest, Text.trim address.toList = schemeText tls ++ rest
  · obtain ⟨tls, rest, haddress⟩ := hscheme
    rw [read_schemeText haddress] at hread
    cases hsplit : splitAuthority rest with
    | error e =>
        rw [hsplit] at hread
        cases hread
    | ok split =>
        rw [hsplit] at hread
        have hendpoint : ofAuthority tls split.1 split.2 = c.endpoint := Except.ok.inj hread
        obtain ⟨path, hpath, hbase⟩ := exists_of_splitAuthority hsplit
        refine ⟨path, hpath, ?_⟩
        rw [← hbase, Client.basePath, ← hendpoint]
        cases tls <;> simp [ofAuthority]
  · simp only [not_exists] at hscheme
    obtain ⟨path, hsocket⟩ := exists_socket_of_read hscheme hread
    exact ⟨[], .inl rfl, by rw [Client.basePath, hsocket]; rfl⟩

theorem joinsPaths_of_read {home : Option String} {address : String} {c : Client}
    (hread : read home address = .ok c.endpoint) : JoinsPaths c := by
  obtain ⟨path, hpath, hbase⟩ := basePath_of_read hread
  have hrooted : c.basePath = "" ∨ c.basePath.toList.head? = some '/' := by
    rw [hbase]
    exact (head?_trimSlashes hpath).imp_left fun hnil =>
      String.toList_eq_nil_iff.mp (hbase.trans hnil)
  constructor
  case rooted => exact hrooted
  case unended => exact hbase ▸ getLast?_trimSlashes path
  case path => exact c.exists_path_eq
  case target =>
    intro peer call received harrived
    obtain ⟨request, hrequest, rfl⟩ := Client.exists_request_of_arrived harrived
    constructor
    · rw [Client.target_send hrequest, String.toList_ofList]
      exact Http.Uri.head?_rooted _
    · rw [Client.target_send_of_base hrooted hrequest, String.toList_ofList]

/-! ## The law -/

/-- An address that is put together from its parts is read as those parts, with blanks around it
or not; base path and path of a call fit together for every endpoint that is read; and a slash at
the end of an address makes no difference, also where it cannot be read. -/
theorem read_faithful (home : Option String) :
    (∀ {a : Written} {name left right : List Char}, a.IsProper name →
      (∀ c ∈ left ++ right, Text.isBlank c) →
        ∃ base slashes, a.path = base ++ List.replicate slashes '/' ∧
          base.getLast? ≠ some '/' ∧
          read home (String.ofList (left ++ a.text ++ right)) = .ok (a.endpoint name base)) ∧
    (∀ {address : String} {c : Client}, read home address = .ok c.endpoint → JoinsPaths c) ∧
    ∀ {address : String} {tls : Bool} {rest : List Char},
      Text.trim address.toList = address.toList → address.toList = schemeText tls ++ rest →
        read home (address ++ "/") = read home address := by
  refine ⟨?_, joinsPaths_of_read, read_concat⟩
  intro a name left right ha hblank
  obtain ⟨slashes, hslashes⟩ := exists_eq_trimSlashes_append a.path
  exact ⟨trimSlashes a.path, slashes, hslashes, getLast?_trimSlashes a.path, a.read_text ha hblank⟩

/-- An IPv6 address with a port and a path, for examples. -/
def literalAddress : Written :=
  ⟨true, "[fe80::1]".toList, some "8443".toList, "/api//".toList⟩

/-- What it is read as. -/
def literalEndpoint : Endpoint :=
  .https "[fe80::1]:8443" "[fe80::1]:8443" "fe80::1" "/api"

theorem read_faithful_literalAddress :
    literalAddress.IsProper "fe80::1".toList ∧
      (∃ base slashes, "/api//".toList = base ++ List.replicate slashes '/' ∧
        base.getLast? ≠ some '/' ∧
        read none " https://[fe80::1]:8443/api//\n" =
          .ok (literalAddress.endpoint "fe80::1".toList base)) ∧
      JoinsPaths ⟨literalEndpoint, "tok", "apps", .ofSeconds 30⟩ ∧
      read none ("https://[fe80::1]:8443/api//" ++ "/") =
        read none "https://[fe80::1]:8443/api//" := by
  obtain ⟨hparts, hjoins, hslash⟩ := read_faithful none
  have hhost : IsHost ('[' :: ("fe80::1".toList ++ [']'])) "fe80::1".toList :=
    .literal (by simp)
  have hproper : literalAddress.IsProper "fe80::1".toList := by
    constructor
    case host => exact hhost
    case port =>
      rintro digits ⟨⟩
      simp
    case path => exact .inr rfl
    case last =>
      rintro c ⟨⟩
      decide
  have hblank : ∀ c ∈ " ".toList ++ "\n".toList, Text.isBlank c := by simp [Text.isBlank]
  have hread : read none "https://[fe80::1]:8443/api//" = .ok literalEndpoint := by rfl
  have htls : "https://[fe80::1]:8443/api//".toList =
      schemeText true ++ "[fe80::1]:8443/api//".toList := by rfl
  exact ⟨hproper, hparts hproper hblank, hjoins hread, hslash (by decide +kernel) htls⟩

end WakeRouter.Endpoint
