import WakeRouter.Config.Load
import WakeRouter.Proofs.Config.RoundTrip

/-!
# The settings as they will be used

What an operator is shown of a configuration is a configuration itself: it reads back, passes
the check, and stands for the same use of every setting.  Filling in the defaults once more
changes nothing, and nothing of the token is left in it.
-/

namespace WakeRouter

namespace Duration

variable {d? : Option Duration} {default : Duration}

theorem isZero_orDefault (d? : Option Duration) (hdefault : default.isZero = false) :
    (orDefault d? default).isZero = false := by
  unfold orDefault
  split
  · split
    next => exact hdefault
    next hnonzero => simpa using hnonzero
  · exact hdefault

/-- A duration that was taken for use is taken as it is. -/
theorem orDefault_orDefault (d? : Option Duration) (hdefault : default.isZero = false) :
    orDefault (some (orDefault d? default)) default = orDefault d? default := by
  have hnonzero := isZero_orDefault d? hdefault
  generalize orDefault d? default = used at hnonzero
  simp [orDefault, hnonzero]

theorem spelled_orDefault (hd : ∀ d, d? = some d → d.Spelled) (hdefault : default.Spelled) :
    (orDefault d? default).Spelled := by
  unfold orDefault
  split
  next d =>
    split
    next => exact hdefault
    next => exact hd d rfl
  next => exact hdefault

end Duration

namespace RoutingConfig

theorem appPort_ne_zero (c : RoutingConfig) : c.appPort ≠ 0 := by
  unfold appPort
  split
  next n _ =>
    split
    next => decide
    next hport =>
      obtain ⟨hnonzero, hbound⟩ := not_or.mp hport
      intro hzero
      have hvalue : n.toNat % 2 ^ 16 = 0 := congrArg UInt16.toNat hzero
      have hrange : n.toNat < 2 ^ 16 := Nat.lt_of_not_le hbound
      rw [Nat.mod_eq_of_lt hrange] at hvalue
      exact hnonzero (UInt32.toNat_inj.mp hvalue)
  next => decide

/-- A port that was taken for use is taken as it is. -/
theorem appPort_of_toUInt32 {c : RoutingConfig} {port : UInt16} (hport : port ≠ 0)
    (hc : c.appPort? = some port.toUInt32) : c.appPort = port := by
  have hset : ¬(port.toUInt32 = 0 ∨ port.toUInt32.toNat ≥ Nat.pow 2 16) := by
    rw [not_or, UInt16.toNat_toUInt32]
    refine ⟨fun hzero => hport ?_, Nat.not_le_of_lt port.toNat_lt⟩
    have hvalue : port.toNat = 0 := by simpa using congrArg UInt32.toNat hzero
    exact UInt16.toNat_inj.mp hvalue
  rw [appPort, hc]
  simp only [if_neg hset, UInt16.toUInt16_toUInt32]

end RoutingConfig

namespace Config

/-! ## What is accepted -/

/-- What the router needs of a configuration. -/
structure Usable (home? : Option String) (c : Config) : Prop where
  url : (Text.trim c.controlPlane.url.toList).isEmpty = false
  token : c.controlPlane.token.isEmpty = false
  hostGroup : c.controlPlane.hostGroup.isEmpty = false
  idleTimeout : RoutingConfig.minIdleTimeout ≤ c.routing.idleTimeout
  appPort : ∀ port, c.routing.appPort? = some port → port.toNat < 2 ^ 16
  endpoint : ∃ endpoint, c.endpoint home? = .ok endpoint

theorem guard_eq_ok_iff {p : Prop} [Decidable p] {e : ConfigError} {x : Except ConfigError Unit} :
    (if p then .error e else x) = .ok () ↔ ¬p ∧ x = .ok () := by
  split <;> simp_all

theorem check_eq_ok_iff {home? : Option String} {c : Config} :
    c.check home? = .ok () ↔ c.Usable home? := by
  have hsteps : c.check home? = .ok () ↔
      (Text.trim c.controlPlane.url.toList).isEmpty = false ∧
        c.controlPlane.token.isEmpty = false ∧ c.controlPlane.hostGroup.isEmpty = false ∧
        RoutingConfig.minIdleTimeout ≤ c.routing.idleTimeout ∧
        (∀ port, c.routing.appPort? = some port → port.toNat < 2 ^ 16) ∧
        ∃ endpoint, c.endpoint home? = .ok endpoint := by
    have hidle : ¬c.routing.idleTimeout < RoutingConfig.minIdleTimeout ↔
        RoutingConfig.minIdleTimeout ≤ c.routing.idleTimeout := Nat.not_lt
    simp only [check, bind, Except.bind, guard_eq_ok_iff, Bool.not_eq_true, hidle]
    cases c.routing.appPort? <;> cases c.endpoint home? <;> simp [guard_eq_ok_iff]
  rw [hsteps]
  constructor
  · rintro ⟨hurl, htoken, hgroup, hidle, hport, hendpoint⟩
    exact ⟨hurl, htoken, hgroup, hidle, hport, hendpoint⟩
  · rintro ⟨hurl, htoken, hgroup, hidle, hport, hendpoint⟩
    exact ⟨hurl, htoken, hgroup, hidle, hport, hendpoint⟩

section Load

variable {env : Environment} {path : String} {content : Except String Bytes}
  {listen? askListen? : Option Net.SocketAddress} {c : Config}

theorem eq_ok_of_mapError {ε ε' α : Type} {f : ε → ε'} {x : Except ε α} {a : α}
    (hx : x.mapError f = .ok a) : x = .ok a := by
  cases x with
  | error e => cases hx
  | ok b =>
    cases hx
    rfl

theorem eq_ok_of_toOption {ε α : Type} {x : Except ε α} {a : α} (hx : x.toOption = some a) :
    x = .ok a := by
  cases x with
  | error e => cases hx
  | ok b => exact congrArg Except.ok (Option.some.inj hx)

/-- The file, the environment and the command line, in this order, and then the check. -/
theorem layers_of_load (hload : load env path content listen? askListen? = .ok c) :
    ∃ file, ofFile path content = .ok file ∧
      c = (file.withToken env.token?).withListeners listen? askListen? ∧
      c.check env.home? = .ok () := by
  obtain ⟨file, hfile, hrest⟩ := bind_eq_ok hload
  obtain ⟨done, hcheck, hc⟩ := bind_eq_ok hrest
  cases hc
  exact ⟨file, eq_ok_of_mapError hfile, rfl, eq_ok_of_mapError hcheck⟩

theorem spelled_of_ofFile (hfile : ofFile path content = .ok c) : c.routing.Spelled := by
  unfold ofFile at hfile
  split at hfile
  next => cases hfile
  next bytes =>
    split at hfile
    next => cases hfile
    next text _ => exact spelled_of_read (eq_ok_of_mapError hfile)

theorem spelled_of_load (hload : load env path content listen? askListen? = .ok c) :
    c.routing.Spelled := by
  obtain ⟨file, hfile, rfl, -⟩ := layers_of_load hload
  exact spelled_withToken env.token? (spelled_of_ofFile hfile)

end Load

/-! ## What is shown -/

variable {c c' : Config} {home? : Option String}

/-- The second configuration has the router do the same as the first. -/
structure SameUse (c c' : Config) : Prop where
  url : c'.controlPlane.url = c.controlPlane.url
  hostGroup : c'.controlPlane.hostGroup = c.controlPlane.hostGroup
  idleTimeout : c'.routing.idleTimeout = c.routing.idleTimeout
  wakeTimeout : c'.routing.wakeTimeout = c.routing.wakeTimeout
  watchInterval : c'.routing.watchInterval = c.routing.watchInterval
  appPort : c'.routing.appPort = c.routing.appPort
  listen : c'.server.listen = c.server.listen
  askListen? : c'.server.askListen? = c.server.askListen?

/-- The configurations differ at most in their tokens. -/
structure SameButToken (c c' : Config) : Prop where
  url : c'.controlPlane.url = c.controlPlane.url
  hostGroup : c'.controlPlane.hostGroup = c.controlPlane.hostGroup
  routing : c'.routing = c.routing
  server : c'.server = c.server

theorem sameUse_effective (c : Config) : c.SameUse c.effective := by
  constructor
  case url =>
    simp only [effective]
    split <;> rfl
  case hostGroup =>
    simp only [effective]
    split <;> rfl
  case idleTimeout => exact Duration.orDefault_orDefault _ rfl
  case wakeTimeout => exact Duration.orDefault_orDefault _ rfl
  case watchInterval => exact Duration.orDefault_orDefault _ rfl
  case appPort => exact RoutingConfig.appPort_of_toUInt32 c.routing.appPort_ne_zero rfl
  case listen => rfl
  case askListen? => rfl

theorem spelled_effective (hc : c.routing.Spelled) : c.effective.routing.Spelled := by
  have hspelled : ∀ {d? : Option Duration} {seconds : Nat}, (∀ d, d? = some d → d.Spelled) →
      seconds < Duration.numberBound →
      ∀ d, some (Duration.orDefault d? (.ofSeconds seconds)) = some d → d.Spelled := by
    rintro d? seconds hd hseconds d ⟨rfl⟩
    exact Duration.spelled_orDefault hd (.seconds hseconds)
  constructor
  case idleTimeout => exact hspelled hc.idleTimeout (by decide)
  case wakeTimeout => exact hspelled hc.wakeTimeout (by decide)
  case watchInterval => exact hspelled hc.watchInterval (by decide)

theorem controlPlane_effective (c : Config) :
    c.effective.controlPlane =
      ⟨c.controlPlane.url, if c.controlPlane.token.isEmpty then "" else "<redacted>",
        c.controlPlane.hostGroup⟩ := by
  simp only [effective]
  split
  next hempty =>
    have htoken : c.controlPlane.token = "" := String.isEmpty_iff.mp hempty
    rw [← htoken]
  next => rfl

/-- Of a token is shown only whether there is one, and of a setting only how it is used. -/
theorem effective_eq (hsame : c.SameUse c')
    (htoken : c'.controlPlane.token.isEmpty = c.controlPlane.token.isEmpty) :
    c'.effective = c.effective := by
  have hcontrolPlane : c'.effective.controlPlane = c.effective.controlPlane := by
    rw [controlPlane_effective, controlPlane_effective, hsame.url, htoken, hsame.hostGroup]
  have hrouting : c'.effective.routing = c.effective.routing := by
    simp only [effective, hsame.idleTimeout, hsame.wakeTimeout, hsame.watchInterval,
      hsame.appPort]
  have hserver : c'.effective.server = c.effective.server := by
    simp only [effective, hsame.listen, hsame.askListen?]
  calc c'.effective
      = ⟨c'.effective.controlPlane, c'.effective.routing, c'.effective.server⟩ := rfl
    _ = ⟨c.effective.controlPlane, c.effective.routing, c.effective.server⟩ := by
      rw [hcontrolPlane, hrouting, hserver]

theorem isEmpty_token_effective (c : Config) :
    c.effective.controlPlane.token.isEmpty = c.controlPlane.token.isEmpty := by
  rw [controlPlane_effective]
  cases c.controlPlane.token.isEmpty <;> rfl

theorem SameButToken.sameUse (hsame : c.SameButToken c') : c.SameUse c' := by
  obtain ⟨hurl, hgroup, hrouting, hserver⟩ := hsame
  constructor
  case url => exact hurl
  case hostGroup => exact hgroup
  case idleTimeout | wakeTimeout | watchInterval | appPort => rw [hrouting]
  case listen | askListen? => rw [hserver]

theorem Usable.effective (hc : c.Usable home?) : c.effective.Usable home? := by
  have hsame := sameUse_effective c
  constructor
  case url => rw [hsame.url]; exact hc.url
  case token => rw [isEmpty_token_effective]; exact hc.token
  case hostGroup => rw [hsame.hostGroup]; exact hc.hostGroup
  case idleTimeout => rw [hsame.idleTimeout]; exact hc.idleTimeout
  case appPort =>
    rintro port ⟨rfl⟩
    rw [UInt16.toNat_toUInt32]
    exact c.routing.appPort.toNat_lt
  case endpoint =>
    rw [Config.endpoint, hsame.url]
    exact hc.endpoint

/-- What the operator is shown is a configuration that the router would take, that has it do
the same, and that is shown as it stands; and the text is the same for every token. -/
theorem effective_faithful {env : Environment} {path : String} {content : Except String Bytes}
    {listen? askListen? : Option Net.SocketAddress}
    (hload : load env path content listen? askListen? = .ok c) :
    (∃ shown, read c.effective.write = .ok shown ∧ shown.check env.home? = .ok () ∧
        c.SameUse shown ∧ shown.effective.write = c.effective.write) ∧
      ∀ {env' : Environment} {path' : String} {content' : Except String Bytes}
        {listen'? askListen'? : Option Net.SocketAddress} {c' : Config},
        load env' path' content' listen'? askListen'? = .ok c' → c.SameButToken c' →
          c'.effective.write = c.effective.write := by
  obtain ⟨_, _, _, hcheck⟩ := layers_of_load hload
  have husable : c.Usable env.home? := check_eq_ok_iff.mp hcheck
  constructor
  · refine ⟨c.effective, read_write (spelled_effective (spelled_of_load hload)), ?_,
      sameUse_effective c, ?_⟩
    · exact check_eq_ok_iff.mpr husable.effective
    · rw [effective_eq (sameUse_effective c) (isEmpty_token_effective c)]
  · intro env' path' content' listen'? askListen'? c' hload' hsame
    obtain ⟨_, _, _, hcheck'⟩ := layers_of_load hload'
    have htoken' := (check_eq_ok_iff.mp hcheck').token
    rw [effective_eq hsame.sameUse (htoken'.trans husable.token.symm)]

/-- Zeros, which stand for the defaults, and a socket in the home folder. -/
def zeroText : String :=
  "[control_plane]\nurl = ' ~/s '\nhost_group = 'a'\n" ++
    "[routing]\nidle_timeout = '0h'\nwake_timeout = '1500 ms'\napp_port = 0\n"

/-- What the router is started with when the file holds that text. -/
def zeroLoaded (token : String) : Except LoadError Config :=
  load ⟨some "/h", some token⟩ "relight.toml" (.ok (Text.toUtf8 zeroText.toList))
    (some (.v4 ⟨127, 0, 0, 1⟩ 80)) none

def zeroConfig (token : String) : Config where
  controlPlane := ⟨" ~/s ", token, "a"⟩
  routing := ⟨some .zero, some (.ofMillis 1500), none, some 0⟩
  server := ⟨some (.v4 ⟨127, 0, 0, 1⟩ 80), none⟩

theorem effective_faithful_zeros :
    zeroLoaded "s3cret" = .ok (zeroConfig "s3cret") ∧
      zeroLoaded "'other'" = .ok (zeroConfig "'other'") ∧
      (∃ shown, read (zeroConfig "s3cret").effective.write = .ok shown ∧
        shown.check (some "/h") = .ok () ∧ (zeroConfig "s3cret").SameUse shown ∧
        shown.effective.write = (zeroConfig "s3cret").effective.write) ∧
      (zeroConfig "'other'").effective.write = (zeroConfig "s3cret").effective.write := by
  have hload : zeroLoaded "s3cret" = .ok (zeroConfig "s3cret") :=
    eq_ok_of_toOption (by decide +kernel)
  have hother : zeroLoaded "'other'" = .ok (zeroConfig "'other'") :=
    eq_ok_of_toOption (by decide +kernel)
  obtain ⟨hshown, hhidden⟩ := effective_faithful hload
  exact ⟨hload, hother, hshown, hhidden hother ⟨rfl, rfl, rfl, rfl⟩⟩

end Config

end WakeRouter
