import WakeRouter.Config.Document
import WakeRouter.Proofs.Duration
import WakeRouter.Proofs.Net.Socket
import WakeRouter.Proofs.Toml.Documents

/-!
# Configurations read back

A configuration that was read, written as a document and read again is the same
configuration, also when the environment has put its token in.  All that reading has to
provide for this is that every duration is one that a text can say; texts, numbers and
addresses are written back whatever they are.
-/

namespace WakeRouter

open Toml (Entries Value)
open Toml.Reader (IsBare Renders Spells Tabled spells_string spells_integer)

/-! ## Results of a fold that can fail -/

variable {ε α δ : Type}

theorem bind_eq_ok {x : Except ε α} {f : α → Except ε δ} {d : δ} (hbind : x >>= f = .ok d) :
    ∃ a, x = .ok a ∧ f a = .ok d := by
  cases x with
  | error e => cases hbind
  | ok a => exact ⟨a, rfl, hbind⟩

/-- What every step keeps, the whole fold keeps. -/
theorem foldlM_keeps {P : δ → Prop} {step : δ → α → Except ε δ}
    (hstep : ∀ d a d', P d → step d a = .ok d' → P d') {items : List α} {start final : δ}
    (hstart : P start) (hfold : items.foldlM step start = .ok final) : P final := by
  induction items generalizing start with
  | nil =>
    cases hfold
    exact hstart
  | cons a items ih =>
    rw [List.foldlM_cons] at hfold
    obtain ⟨d, hd, hrest⟩ := bind_eq_ok hfold
    exact ih (hstep start a d hstart hd) hrest

theorem foldlM_append_ok {step : δ → α → Except ε δ} {items more : List α} {start middle final : δ}
    (hitems : items.foldlM step start = .ok middle) (hmore : more.foldlM step middle = .ok final) :
    (items ++ more).foldlM step start = .ok final := by
  rw [List.foldlM_append, hitems]
  exact hmore

/-! ## Fields that may be left out -/

section Optional

variable {key : String} {x? : Option α} {value : α → Value}

/-- The entry of a field that is set. -/
def entryOf (key : String) (value : α → Value) (x? : Option α) : Entries :=
  (x?.map fun x => (key, value x)).toList

theorem keys_entryOf (key : String) (value : α → Value) (x? : Option α) :
    ((entryOf key value x?).map Prod.fst).Sublist [key] := by
  cases x? with
  | none => exact List.nil_sublist [key]
  | some x => exact List.Sublist.refl [key]

theorem renders_entryOf {write : α → List Char} (hkey : IsBare key)
    (hvalue : ∀ x, Spells (write x) (value x)) (x? : Option α) :
    Renders (x?.map fun x => Toml.Writer.pair key (write x)).toList (entryOf key value x?) := by
  cases x? with
  | none => exact .nil
  | some x => exact .cons hkey (hvalue x) .nil

/-- A field takes the fold one step, and leaves it where it is when it is not set. -/
theorem foldlM_entryOf {step : δ → String × Value → Except ε δ} {start after : δ}
    (hnone : x? = none → after = start)
    (hsome : ∀ x, x? = some x → step start (key, value x) = .ok after) :
    (entryOf key value x?).foldlM step start = .ok after := by
  cases x? with
  | none =>
    rw [hnone rfl]
    rfl
  | some x => simp [entryOf, hsome x rfl]

end Optional

namespace ConfigField

theorem takeUp_keeps {P : δ → Prop} {names : List String}
    {set : δ → String × Value → Except ConfigFault δ}
    (hset : ∀ d field d', P d → set d field = .ok d' → P d') {start final : δ} {v : Value}
    (hstart : P start) (htake : takeUp names set start v = .ok final) : P final := by
  have hordered : ∀ items, takeUp.inOrder names set start items = .ok final → P final := by
    intro items horder
    obtain ⟨d, hfold, hd⟩ := bind_eq_ok horder
    split at hd
    · cases hd
    · cases hd
      exact foldlM_keeps hset hstart hfold
  cases v with
  | table origin entries => exact foldlM_keeps hset hstart htake
  | array items => exact hordered items htake
  | tables items => exact hordered _ htake
  | dateTime literal =>
    cases htake
    exact hstart
  | string => cases htake
  | integer => cases htake
  | float => cases htake
  | boolean => cases htake

theorem spelled_of_duration {v : Value} {d : Duration} (hread : duration v = .ok d) :
    d.Spelled := by
  obtain ⟨s, -, hs⟩ := bind_eq_ok hread
  split at hs
  · rename_i hd
    cases hs
    exact Duration.spelled_of_read? hd
  · cases hs

theorem duration_write {d : Duration} (hd : d.Spelled) :
    duration (.string (String.ofList d.write)) = .ok d := by
  simp [duration, text, bind, Except.bind, Duration.read?_write hd]

theorem address_text (a : Net.SocketAddress) :
    address (.string (String.ofList a.text)) = .ok a := by
  simp [address, text, bind, Except.bind, Net.SocketAddress.read?_text]

theorem word32_toNat (n : UInt32) : word32 (.integer n.toNat) = .ok n := by
  have hbound : Int.pow 2 32 = 2 ^ 32 := rfl
  have hword := n.toNat_lt
  have hrange : 0 ≤ (n.toNat : Int) ∧ (n.toNat : Int) < Int.pow 2 32 := by
    rw [hbound]
    omega
  rw [word32, if_pos hrange, Int.toNat_natCast, UInt32.ofNat_toNat]

end ConfigField

/-! ## The tables -/

namespace ControlPlaneConfig

/-- What the table of the settings holds. -/
def entries (c : ControlPlaneConfig) : Entries :=
  [("url", .string c.url), ("token", .string c.token), ("host_group", .string c.hostGroup)]

theorem toText_eq (c : ControlPlaneConfig) :
    ∃ written, c.toText = Toml.Writer.table "control_plane" written ∧
      Renders written c.entries := by
  have htext : ∀ s : String, Spells (Toml.Writer.string s.toList) (.string s) := by
    intro s
    simpa using spells_string s.toList
  refine ⟨_, rfl, ?_⟩
  exact .cons (by decide +kernel) (htext c.url) <| .cons (by decide +kernel) (htext c.token) <|
    .cons (by decide +kernel) (htext c.hostGroup) .nil

theorem nodup_entries (c : ControlPlaneConfig) : (c.entries.map Prod.fst).Nodup := by
  simp [entries]

theorem ofValue_entries (c : ControlPlaneConfig) : ofValue (.table .header c.entries) = .ok c := by
  rfl

end ControlPlaneConfig

namespace RoutingConfig

def durationEntry (key : String) (d? : Option Duration) : Entries :=
  entryOf key (fun d => .string (String.ofList d.write)) d?

/-- What the table of the settings holds. -/
def entries (c : RoutingConfig) : Entries :=
  durationEntry "idle_timeout" c.idleTimeout? ++
    durationEntry "wake_timeout" c.wakeTimeout? ++
    durationEntry "watch_interval" c.watchInterval? ++
    entryOf "app_port" (fun n => .integer n.toNat) c.appPort?

theorem renders_durationLine {key : String} (hkey : IsBare key) (d? : Option Duration) :
    Renders (durationLine key d?) (durationEntry key d?) := by
  have hvalue : ∀ d : Duration,
      Spells (Toml.Writer.string d.write) (.string (String.ofList d.write)) :=
    fun d => spells_string d.write
  exact renders_entryOf hkey hvalue d?

theorem toText_eq (c : RoutingConfig) : ∃ written, c.toText = Toml.Writer.table "routing" written ∧
    Renders written c.entries := by
  have hport : ∀ n : UInt32, Spells (Text.writeNumber n.toNat) (.integer n.toNat) := by
    intro n
    exact spells_integer (Nat.lt_trans n.toNat_lt (by decide))
  refine ⟨_, rfl, ?_⟩
  refine Renders.append (Renders.append (Renders.append ?idle ?wake) ?watch) ?port
  case idle => exact renders_durationLine (by decide +kernel) c.idleTimeout?
  case wake => exact renders_durationLine (by decide +kernel) c.wakeTimeout?
  case watch => exact renders_durationLine (by decide +kernel) c.watchInterval?
  case port => exact renders_entryOf (by decide +kernel) hport c.appPort?

theorem nodup_entries (c : RoutingConfig) : (c.entries.map Prod.fst).Nodup := by
  have hnames : fieldNames =
      ["idle_timeout"] ++ ["wake_timeout"] ++ ["watch_interval"] ++ ["app_port"] := rfl
  have hsublist : (c.entries.map Prod.fst).Sublist fieldNames := by
    rw [hnames, entries, List.map_append, List.map_append, List.map_append]
    exact (((keys_entryOf _ _ _).append (keys_entryOf _ _ _)).append
      (keys_entryOf _ _ _)).append (keys_entryOf _ _ _)
  exact hsublist.nodup (by decide)

/-- Every duration that is set can be said by a text. -/
structure Spelled (c : RoutingConfig) : Prop where
  idleTimeout : ∀ d, c.idleTimeout? = some d → d.Spelled
  wakeTimeout : ∀ d, c.wakeTimeout? = some d → d.Spelled
  watchInterval : ∀ d, c.watchInterval? = some d → d.Spelled

theorem spelled_empty : empty.Spelled := by
  constructor <;> simp [empty]

theorem spelled_of_set {c c' : RoutingConfig} {field : String × Value} (hc : c.Spelled)
    (hset : c.set field = .ok c') : c'.Spelled := by
  obtain ⟨name, v⟩ := field
  unfold set at hset
  split at hset
  · obtain ⟨d, hd, hc'⟩ := bind_eq_ok hset
    cases hc'
    exact ⟨by simpa using ConfigField.spelled_of_duration hd, hc.wakeTimeout, hc.watchInterval⟩
  · obtain ⟨d, hd, hc'⟩ := bind_eq_ok hset
    cases hc'
    exact ⟨hc.idleTimeout, by simpa using ConfigField.spelled_of_duration hd, hc.watchInterval⟩
  · obtain ⟨d, hd, hc'⟩ := bind_eq_ok hset
    cases hc'
    exact ⟨hc.idleTimeout, hc.wakeTimeout, by simpa using ConfigField.spelled_of_duration hd⟩
  · obtain ⟨n, -, hc'⟩ := bind_eq_ok hset
    cases hc'
    exact ⟨hc.idleTimeout, hc.wakeTimeout, hc.watchInterval⟩
  · cases hset
    exact hc

theorem spelled_of_ofValue {v : Value} {c : RoutingConfig} (hread : ofValue v = .ok c) :
    c.Spelled :=
  ConfigField.takeUp_keeps (fun _ _ _ hd hset => spelled_of_set hd hset) spelled_empty hread

theorem set_port (c : RoutingConfig) (n : UInt32) :
    c.set ("app_port", .integer n.toNat) = .ok { c with appPort? := some n } := by
  rw [set, ConfigField.word32_toNat]
  rfl

/-- Field by field, the settings come back. -/
theorem ofValue_entries {c : RoutingConfig} (hc : c.Spelled) :
    ofValue (.table .header c.entries) = .ok c := by
  let idle : RoutingConfig := { empty with idleTimeout? := c.idleTimeout? }
  let wake : RoutingConfig := { idle with wakeTimeout? := c.wakeTimeout? }
  let watch : RoutingConfig := { wake with watchInterval? := c.watchInterval? }
  have hidle : (durationEntry "idle_timeout" c.idleTimeout?).foldlM set empty = .ok idle := by
    refine foldlM_entryOf (fun hd => by simp [idle, hd, empty]) fun d hd => ?_
    have hread := ConfigField.duration_write (hc.idleTimeout d hd)
    simp [set, hread, bind, Except.bind, idle, hd]
  have hwake : (durationEntry "wake_timeout" c.wakeTimeout?).foldlM set idle = .ok wake := by
    refine foldlM_entryOf (fun hd => by simp [wake, hd, idle, empty]) fun d hd => ?_
    have hread := ConfigField.duration_write (hc.wakeTimeout d hd)
    simp [set, hread, bind, Except.bind, wake, hd]
  have hwatch : (durationEntry "watch_interval" c.watchInterval?).foldlM set wake = .ok watch := by
    refine foldlM_entryOf (fun hd => by simp [watch, hd, wake, idle, empty]) fun d hd => ?_
    have hread := ConfigField.duration_write (hc.watchInterval d hd)
    simp [set, hread, bind, Except.bind, watch, hd]
  have hport : (entryOf "app_port" (fun n : UInt32 => .integer n.toNat) c.appPort?).foldlM set
      watch = .ok c := by
    refine foldlM_entryOf (fun hn => ?_) fun n hn => ?_
    · cases c
      simp_all [watch, wake, idle, empty]
    · rw [set_port]
      cases c
      simp_all [watch, wake, idle]
  exact foldlM_append_ok (foldlM_append_ok (foldlM_append_ok hidle hwake) hwatch) hport

end RoutingConfig

namespace ServerConfig

def addressEntry (key : String) (a? : Option Net.SocketAddress) : Entries :=
  entryOf key (fun a => .string (String.ofList a.text)) a?

/-- What the table of the settings holds. -/
def entries (c : ServerConfig) : Entries :=
  addressEntry "listen" c.listen? ++ addressEntry "ask_listen" c.askListen?

theorem renders_addressLine {key : String} (hkey : IsBare key) (a? : Option Net.SocketAddress) :
    Renders (addressLine key a?) (addressEntry key a?) := by
  have hvalue : ∀ a : Net.SocketAddress,
      Spells (Toml.Writer.string a.text) (.string (String.ofList a.text)) :=
    fun a => spells_string a.text
  exact renders_entryOf hkey hvalue a?

theorem toText_eq (c : ServerConfig) : ∃ written, c.toText = Toml.Writer.table "server" written ∧
    Renders written c.entries := by
  refine ⟨_, rfl, ?_⟩
  exact (renders_addressLine (by decide +kernel) c.listen?).append
    (renders_addressLine (by decide +kernel) c.askListen?)

theorem nodup_entries (c : ServerConfig) : (c.entries.map Prod.fst).Nodup := by
  have hnames : fieldNames = ["listen"] ++ ["ask_listen"] := rfl
  have hsublist : (c.entries.map Prod.fst).Sublist fieldNames := by
    rw [hnames, entries, List.map_append]
    exact (keys_entryOf _ _ _).append (keys_entryOf _ _ _)
  exact hsublist.nodup (by decide)

theorem ofValue_entries (c : ServerConfig) : ofValue (.table .header c.entries) = .ok c := by
  let listen : ServerConfig := { empty with listen? := c.listen? }
  have hlisten : (addressEntry "listen" c.listen?).foldlM set empty = .ok listen := by
    refine foldlM_entryOf (fun ha => by simp [listen, ha, empty]) fun a ha => ?_
    simp [set, ConfigField.address_text, bind, Except.bind, listen, ha]
  have hask : (addressEntry "ask_listen" c.askListen?).foldlM set listen = .ok c := by
    refine foldlM_entryOf (fun ha => ?_) fun a ha => ?_
    · cases c
      simp_all [listen, empty]
    · cases c
      simp_all [set, ConfigField.address_text, bind, Except.bind, listen]
  exact foldlM_append_ok hlisten hask

end ServerConfig

namespace Config

theorem spelled_of_set {d d' : Draft} {field : String × Value} (hd : d.routing.Spelled)
    (hset : d.set field = .ok d') : d'.routing.Spelled := by
  obtain ⟨name, v⟩ := field
  unfold Draft.set at hset
  split at hset
  · obtain ⟨c, -, hd'⟩ := bind_eq_ok hset
    cases hd'
    exact hd
  · obtain ⟨c, hc, hd'⟩ := bind_eq_ok hset
    cases hd'
    exact RoutingConfig.spelled_of_ofValue hc
  · obtain ⟨c, -, hd'⟩ := bind_eq_ok hset
    cases hd'
    exact hd
  · cases hset
    exact hd

theorem spelled_of_read {text : String} {c : Config} (hread : read text = .ok c) :
    c.routing.Spelled := by
  unfold read at hread
  split at hread
  · obtain ⟨d, hfold, hrest⟩ := bind_eq_ok hread
    obtain ⟨controlPlane, -, hc⟩ := bind_eq_ok hrest
    cases hc
    exact foldlM_keeps (P := fun d : Draft => d.routing.Spelled)
      (fun _ _ _ hd hset => spelled_of_set hd hset) RoutingConfig.spelled_empty hfold
  · cases hread

theorem read_write {c : Config} (hc : c.routing.Spelled) : read c.write = .ok c := by
  obtain ⟨controlPlane, hcontrolPlane, hfirst⟩ := c.controlPlane.toText_eq
  obtain ⟨routing, hrouting, hsecond⟩ := c.routing.toText_eq
  obtain ⟨server, hserver, hthird⟩ := c.server.toText_eq
  let tables := [("control_plane", c.controlPlane.entries), ("routing", c.routing.entries),
    ("server", c.server.entries)]
  -- The document is put together from its last table up.
  have hlast : Tabled (c.server.toText ++ []) [("server", c.server.entries)] := by
    rw [hserver]
    exact .table (by decide +kernel) hthird c.server.nodup_entries .nil
  have hmiddle : Tabled (c.routing.toText ++ '\n' :: (c.server.toText ++ []))
      [("routing", c.routing.entries), ("server", c.server.entries)] := by
    rw [hrouting]
    exact .table (by decide +kernel) hsecond c.routing.nodup_entries (.blank hlast)
  have hall : Tabled (c.controlPlane.toText ++ '\n' ::
      (c.routing.toText ++ '\n' :: (c.server.toText ++ []))) tables := by
    rw [hcontrolPlane]
    exact .table (by decide +kernel) hfirst c.controlPlane.nodup_entries (.blank hmiddle)
  have htext : c.write = String.ofList (c.controlPlane.toText ++ '\n' ::
      (c.routing.toText ++ '\n' :: (c.server.toText ++ []))) := by
    simp [write]
  have hread := Toml.read?_tabled hall (by simp [tables])
  rw [htext, read, hread]
  simp [tables, ofEntries, Draft.set, ControlPlaneConfig.ofValue_entries,
    RoutingConfig.ofValue_entries hc, ServerConfig.ofValue_entries, ConfigField.required, bind,
    Except.bind, pure, Except.pure]

theorem spelled_withToken {c : Config} (token? : Option String) (hc : c.routing.Spelled) :
    (c.withToken token?).routing.Spelled := by
  unfold withToken
  split
  · split
    · exact hc
    · exact hc
  · exact hc

/-- What was read, with or without a token from the environment, is written so that it
is read again. -/
theorem read_write_of_read {text : String} {c : Config} (token? : Option String)
    (hread : read text = .ok c) :
    read (c.withToken token?).write = .ok (c.withToken token?) :=
  read_write (spelled_withToken token? (spelled_of_read hread))

/-- Texts in two ways of quoting, and a duration, a port and an address in spellings that
are not the writer's. -/
def unusualText : String :=
  "[control_plane]\nurl = \"\\u00fc?'\\\"\"\nhost_group = \"\"\"\n'''\\u0001\\\\\"\"\\\"\n\"\"\"\n" ++
  "[routing]\nidle_timeout = ' 90 m '\napp_port = +65_616\n" ++
  "[server]\nlisten = '[fe80:0:0:1::7%012]:0443'\n"

def unusualConfig : Config where
  controlPlane := ⟨"ü?'\"", "", "'''\x01\\\"\"\"\n"⟩
  routing := ⟨some (.ofSeconds 5400), none, none, some 65616⟩
  server := ⟨some (.v6 ⟨[0xfe80, 0, 0, 1, 0, 0, 0, 7], rfl⟩ 12 443), none⟩

theorem read_write_of_read_unusualText :
    read unusualText = .ok unusualConfig ∧
      read (unusualConfig.withToken (some "'''\"\"\"")).write =
        .ok (unusualConfig.withToken (some "'''\"\"\"")) := by
  have hread : read unusualText = .ok unusualConfig := by
    have hsome : (read unusualText).toOption = some unusualConfig := by decide +kernel
    cases hresult : read unusualText with
    | error fault =>
      rw [hresult] at hsome
      cases hsome
    | ok c =>
      rw [hresult] at hsome
      exact congrArg Except.ok (Option.some.inj hsome)
  exact ⟨hread, read_write_of_read _ hread⟩

end Config

end WakeRouter
