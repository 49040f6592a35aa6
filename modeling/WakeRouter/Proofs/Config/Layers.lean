import WakeRouter.Proofs.Config.Effective

/-!
# The settings that the router starts with

Environment and command line are laid over the file, and the defaults under it.  Each layer has
its own way to leave a setting alone: it says nothing, or zero, or nothing but an empty text.
Here every setting that the router runs with is traced back to the layer it comes from, and
exactly those configurations are found to be taken that the checks let pass.
-/

namespace WakeRouter

/-- A value that is set and is no zero is used as it is; otherwise the default is used. -/
structure Takes {α : Type} (zero default : α) (set? : Option α) (used : α) : Prop where
  set : ∀ x, set? = some x → x ≠ zero → used = x
  unset : (∀ x, set? = some x → x = zero) → used = default

section Takes

variable {α : Type} {zero default x used other : α} {set? : Option α}

theorem takes_none : Takes zero default none default :=
  ⟨by simp, fun _ => rfl⟩

theorem takes_zero : Takes zero default (some zero) default :=
  ⟨fun _ hx hnonzero => absurd (Option.some.inj hx).symm hnonzero, fun _ => rfl⟩

theorem takes_some (hx : x ≠ zero) : Takes zero default (some x) x :=
  ⟨fun _ hset _ => Option.some.inj hset, fun hunset => absurd (hunset x rfl) hx⟩

theorem Takes.unique (hused : Takes zero default set? used)
    (hother : Takes zero default set? other) : used = other := by
  rcases Classical.em (∃ x, set? = some x ∧ x ≠ zero) with ⟨x, hx, hnonzero⟩ | hnone
  · rw [hused.set x hx hnonzero, hother.set x hx hnonzero]
  · have hunset : ∀ x, set? = some x → x = zero := fun x hx =>
      Classical.byContradiction fun hnonzero => hnone ⟨x, hx, hnonzero⟩
    rw [hused.unset hunset, hother.unset hunset]

end Takes

namespace Duration

theorem isZero_iff {d : Duration} : d.isZero ↔ d = .zero := by
  cases d
  simp [isZero, zero]

theorem takes_orDefault (default : Duration) (d? : Option Duration) :
    Takes .zero default d? (orDefault d? default) := by
  unfold orDefault
  split
  next d =>
    split
    next hzero => exact isZero_iff.mp hzero ▸ takes_zero
    next hnonzero => exact takes_some fun hzero => hnonzero (isZero_iff.mpr hzero)
  next => exact takes_none

end Duration

/-- Where every number that is set is a port, no number is passed over but zero. -/
theorem RoutingConfig.takes_appPort {c : RoutingConfig}
    (hports : ∀ port, c.appPort? = some port → port.toNat < 2 ^ 16) :
    Takes 0 8080 (c.appPort?.map UInt32.toNat) c.appPort.toNat := by
  unfold appPort
  cases hset : c.appPort? with
  | none => exact takes_none
  | some port =>
    rcases Classical.em (port = 0) with rfl | hzero
    · exact takes_zero
    · have hrange : port.toNat < 2 ^ 16 := hports port hset
      have hkept : ¬(port = 0 ∨ port.toNat ≥ Nat.pow 2 16) :=
        not_or.mpr ⟨hzero, Nat.not_le_of_lt hrange⟩
      have hvalue : port.toUInt16.toNat = port.toNat := Nat.mod_eq_of_lt hrange
      simp only [if_neg hkept, hvalue]
      exact takes_some fun hnone => hzero (UInt32.toNat_inj.mp hnone)

namespace Config

variable {env : Environment} {path : String} {content : Except String Bytes}
  {listen? askListen? : Option Net.SocketAddress} {file c : Config}

/-! ## Layers -/

/-- Reading the file gave a text, and the text is that of the configuration. -/
def Holds (content : Except String Bytes) (file : Config) : Prop :=
  ∃ bytes text, content = .ok bytes ∧ Text.ofUtf8? bytes = some text ∧
    read (String.ofList text) = .ok file

/-- The configuration is the file with the environment and the command line laid over it. -/
structure Overlaid (env : Environment) (listen? askListen? : Option Net.SocketAddress)
    (file c : Config) : Prop where
  token : Takes "" file.controlPlane.token env.token? c.controlPlane.token
  listen? : c.server.listen? = listen?.or file.server.listen?
  askListen? : c.server.askListen? = askListen?.or file.server.askListen?
  url : c.controlPlane.url = file.controlPlane.url
  hostGroup : c.controlPlane.hostGroup = file.controlPlane.hostGroup
  routing : c.routing = file.routing

theorem mapError_ok {ε ε' α : Type} {f : ε → ε'} {a : α} :
    (Except.ok a : Except ε α).mapError f = .ok a := rfl

theorem ofFile_eq_ok_iff : ofFile path content = .ok file ↔ Holds content file := by
  constructor
  · intro hfile
    unfold ofFile at hfile
    split at hfile
    next => cases hfile
    next bytes =>
      split at hfile
      next => cases hfile
      next text htext => exact ⟨bytes, text, rfl, htext, eq_ok_of_mapError hfile⟩
  · rintro ⟨bytes, text, rfl, htext, hread⟩
    simp only [ofFile, htext, hread, mapError_ok]

theorem takes_withToken (c : Config) (token? : Option String) :
    Takes "" c.controlPlane.token token? (c.withToken token?).controlPlane.token := by
  unfold withToken
  split
  next token =>
    split
    next hempty => exact String.isEmpty_iff.mp hempty ▸ takes_zero
    next hset => exact takes_some fun hempty => hset (String.isEmpty_iff.mpr hempty)
  next => exact takes_none

theorem withToken_rest (c : Config) (token? : Option String) :
    (c.withToken token?).controlPlane.url = c.controlPlane.url ∧
      (c.withToken token?).controlPlane.hostGroup = c.controlPlane.hostGroup ∧
      (c.withToken token?).routing = c.routing ∧ (c.withToken token?).server = c.server := by
  unfold withToken
  split
  next => split <;> exact ⟨rfl, rfl, rfl, rfl⟩
  next => exact ⟨rfl, rfl, rfl, rfl⟩

theorem overlaid_layers (env : Environment) (listen? askListen? : Option Net.SocketAddress)
    (file : Config) :
    Overlaid env listen? askListen? file
      ((file.withToken env.token?).withListeners listen? askListen?) := by
  obtain ⟨hurl, hgroup, hrouting, hserver⟩ := withToken_rest file env.token?
  constructor
  case token => exact takes_withToken file env.token?
  case listen? => simp only [withListeners, hserver]
  case askListen? => simp only [withListeners, hserver]
  case url => exact hurl
  case hostGroup => exact hgroup
  case routing => exact hrouting

/-- The layers leave nothing open. -/
theorem Overlaid.unique {c' : Config} (hc : Overlaid env listen? askListen? file c)
    (hc' : Overlaid env listen? askListen? file c') : c = c' := by
  have hcontrolPlane : c.controlPlane = c'.controlPlane := by
    have hurl := hc.url.trans hc'.url.symm
    have htoken := hc.token.unique hc'.token
    have hgroup := hc.hostGroup.trans hc'.hostGroup.symm
    cases hplane : c.controlPlane
    cases hplane' : c'.controlPlane
    simp_all
  have hserver : c.server = c'.server := by
    have hlisten := hc.listen?.trans hc'.listen?.symm
    have hask := hc.askListen?.trans hc'.askListen?.symm
    cases hends : c.server
    cases hends' : c'.server
    simp_all
  have hrouting := hc.routing.trans hc'.routing.symm
  cases c
  cases c'
  simp_all

theorem load_eq_ok_iff : load env path content listen? askListen? = .ok c ↔
    ∃ file, Holds content file ∧ Overlaid env listen? askListen? file c ∧ c.Usable env.home? := by
  constructor
  · intro hload
    obtain ⟨file, hfile, rfl, hcheck⟩ := layers_of_load hload
    exact ⟨file, ofFile_eq_ok_iff.mp hfile, overlaid_layers .., check_eq_ok_iff.mp hcheck⟩
  · rintro ⟨file, hholds, hover, husable⟩
    obtain rfl := hover.unique (overlaid_layers env listen? askListen? file)
    have hfile : ofFile path content = .ok file := ofFile_eq_ok_iff.mpr hholds
    have hcheck := check_eq_ok_iff.mpr husable
    simp only [load, hfile, hcheck, mapError_ok, bind, Except.bind]

/-! ## What is used -/

/-- What the router runs with, by the layers that it comes from. -/
structure RunsWith (env : Environment) (listen? askListen? : Option Net.SocketAddress)
    (file c : Config) : Prop where
  overlaid : Overlaid env listen? askListen? file c
  appPort : Takes 0 8080 (file.routing.appPort?.map UInt32.toNat) c.routing.appPort.toNat
  idleTimeout : Takes .zero (.ofSeconds 300) file.routing.idleTimeout? c.routing.idleTimeout
  wakeTimeout : Takes .zero (.ofSeconds 30) file.routing.wakeTimeout? c.routing.wakeTimeout
  watchInterval : Takes .zero (.ofSeconds 30) file.routing.watchInterval? c.routing.watchInterval
  notTooShort : .ofSeconds 30 ≤ c.routing.idleTimeout
  listen : c.server.listen = (listen?.or file.server.listen?).getD (.v4 ⟨0, 0, 0, 0⟩ 8081)
  token : c.controlPlane.token ≠ ""
  endpoint : ∃ endpoint, c.endpoint env.home? = .ok endpoint

theorem Overlaid.runsWith (hover : Overlaid env listen? askListen? file c)
    (husable : c.Usable env.home?) : RunsWith env listen? askListen? file c := by
  constructor
  case overlaid => exact hover
  case appPort =>
    rw [← hover.routing]
    exact RoutingConfig.takes_appPort husable.appPort
  case idleTimeout =>
    rw [← hover.routing]
    exact Duration.takes_orDefault _ _
  case wakeTimeout =>
    rw [← hover.routing]
    exact Duration.takes_orDefault _ _
  case watchInterval =>
    rw [← hover.routing]
    exact Duration.takes_orDefault _ _
  case notTooShort => exact husable.idleTimeout
  case listen => rw [ServerConfig.listen, hover.listen?, ServerConfig.defaultListen]
  case token =>
    intro hempty
    have hset := husable.token
    rw [hempty] at hset
    cases hset
  case endpoint => exact husable.endpoint

/-- A configuration is taken exactly if the file holds one that passes every check once the
environment and the command line are laid over it, and then each setting is the one that the
uppermost layer with a say in it gives. -/
theorem load_faithful (env : Environment) (path : String) (content : Except String Bytes)
    (listen? askListen? : Option Net.SocketAddress) (c : Config) :
    (load env path content listen? askListen? = .ok c ↔
      ∃ file, Holds content file ∧ Overlaid env listen? askListen? file c ∧
        c.Usable env.home?) ∧
    (load env path content listen? askListen? = .ok c →
      ∃ file, Holds content file ∧ RunsWith env listen? askListen? file c) := by
  refine ⟨load_eq_ok_iff, fun hload => ?_⟩
  obtain ⟨file, hholds, hover, husable⟩ := load_eq_ok_iff.mp hload
  exact ⟨file, hholds, hover.runsWith husable⟩

/-- A file that sets a token, a port, a zero and both addresses. -/
def layeredText : String :=
  "[control_plane]\nurl = '~/s'\ntoken = 'filed'\nhost_group = 'a'\n" ++
    "[routing]\nidle_timeout = '0s'\nwake_timeout = '1500 ms'\napp_port = 65535\n" ++
    "[server]\nlisten = '127.0.0.1:1'\nask_listen = '127.0.0.1:2'\n"

/-- What it is started with under an empty token in the environment and another address. -/
def layeredConfig : Config where
  controlPlane := ⟨"~/s", "filed", "a"⟩
  routing := ⟨some .zero, some (.ofMillis 1500), none, some 65535⟩
  server := ⟨some (.v4 ⟨127, 0, 0, 1⟩ 80), some (.v4 ⟨127, 0, 0, 1⟩ 2)⟩

theorem load_faithful_emptyToken :
    load ⟨some "/h", some ""⟩ "relight.toml" (.ok (Text.toUtf8 layeredText.toList))
        (some (.v4 ⟨127, 0, 0, 1⟩ 80)) none = .ok layeredConfig ∧
      ∃ file, Holds (.ok (Text.toUtf8 layeredText.toList)) file ∧
        RunsWith ⟨some "/h", some ""⟩ (some (.v4 ⟨127, 0, 0, 1⟩ 80)) none file layeredConfig := by
  have hload : load ⟨some "/h", some ""⟩ "relight.toml" (.ok (Text.toUtf8 layeredText.toList))
      (some (.v4 ⟨127, 0, 0, 1⟩ 80)) none = .ok layeredConfig :=
    eq_ok_of_toOption (by decide +kernel)
  exact ⟨hload, (load_faithful ..).2 hload⟩

end Config

end WakeRouter
