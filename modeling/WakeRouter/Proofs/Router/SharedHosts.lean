import WakeRouter.Proofs.Manager.NoOrphans
import WakeRouter.Proofs.Proxy.HostSpelling
import WakeRouter.Proofs.Router.Exchanges
import WakeRouter.Proofs.Router.Questions

/-!
# Requests that spell one host

Requests whose `Host` lines differ in blanks and port alone have one key, whatever their targets.
So they ask for one record, and those of them that wait do so for the one wake that it holds.
-/

namespace WakeRouter.Router

/-- The caller of the exchange waits for the wake, which is still to end. -/
def Expects (r : Router) (exchange : Exchange) (e : Episode) : Prop :=
  ∃ c caller w, exchange.phase = .ensuring c ∧ r.manager.callers.find? c = some caller ∧
    caller.phase = .waiting w ∧ w.episode = e ∧ r.manager.outcome? e = none

/-- The exchange goes by the name: its caller asks for the record of the name, and a wake that it
waits for is held by that record, and is the only one for the name that is under way. -/
structure GoesBy (r : Router) (name : String) (exchange : Exchange) : Prop where
  key : exchange.key = name
  taken : exchange.phase ≠ .refused .noHost
  caller : ∀ {c}, exchange.phase = .ensuring c →
    ∃ caller, r.manager.callers.find? c = some caller ∧ caller.key = name
  held : ∀ {e}, r.Expects exchange e →
    ∃ record, r.manager.records.find? name = some record ∧ record.state = .waking ∧
      record.wake? = some e
  only : ∀ {e}, r.Expects exchange e → r.manager.outstanding name = [e]

variable {r : Router} {name : String} {exchange other : Exchange}

theorem GoesBy.one_wake (hfirst : r.GoesBy name exchange) (hsecond : r.GoesBy name other)
    {e e' : Episode} (hexpects : r.Expects exchange e) (hexpects' : r.Expects other e') : e = e' :=
  List.singleton_inj.mp ((hfirst.only hexpects).symm.trans (hsecond.only hexpects'))

theorem Known.held_of_expects (hr : r.Known) (hexchange : exchange ∈ r.exchanges) {e : Episode}
    (hexpects : r.Expects exchange e) :
    ∃ record, r.manager.records.find? exchange.key = some record ∧ record.state = .waking ∧
      record.wake? = some e := by
  obtain ⟨c, caller, w, hphase, hcaller, hwaiting, rfl, hnone⟩ := hexpects
  obtain ⟨x, hx⟩ := List.mem_iff_getElem?.mp hexchange
  obtain ⟨-, caller', -, hcaller', hkey, -⟩ := hr.sound.ensuring hx hphase
  obtain rfl := Option.some.inj (hcaller.symm.trans hcaller')
  exact hkey ▸ hr.reachable.consistent.awaited_held hcaller hwaiting hnone

theorem goesBy_of_keyed (hr : r.Known) (hexchange : exchange ∈ r.exchanges)
    (hkeyed : Keyed exchange)
    (hkey : requestKey? exchange.request.headers exchange.request.uri = some name) :
    r.GoesBy name exchange := by
  obtain ⟨rfl, htaken⟩ : exchange.key = name ∧ exchange.phase ≠ .refused .noHost := by
    rcases hkeyed with ⟨hnone, -⟩ | ⟨hsome, htaken⟩
    · rw [hkey] at hnone
      cases hnone
    · exact ⟨Option.some.inj (hsome.symm.trans hkey), htaken⟩
  constructor
  case key => rfl
  case taken => exact htaken
  case caller =>
    intro c hphase
    obtain ⟨x, hx⟩ := List.mem_iff_getElem?.mp hexchange
    obtain ⟨-, caller, -, hcaller, hsame, -⟩ := hr.sound.ensuring hx hphase
    exact ⟨caller, hcaller, hsame⟩
  case held =>
    intro e hexpects
    exact hr.held_of_expects hexchange hexpects
  case only =>
    intro e hexpects
    obtain ⟨record, hrecord, -, hwake⟩ := hr.held_of_expects hexchange hexpects
    rw [hr.reachable.consistent.wakes.outstanding_eq, hrecord, Option.bind_some, hwake]
    rfl

theorem goesBy_of_run {deadline wakeTimeout : Duration} {port : UInt16} {es : List Event}
    (hrun : Run.after? step (start deadline port wakeTimeout) es = some r)
    (hname : IsBareHost name.toList) (hexchange : exchange ∈ r.exchanges)
    (hspells : SpellsHost exchange.request.headers name.toList) : r.GoesBy name exchange := by
  obtain ⟨x, hx⟩ := List.mem_iff_getElem?.mp hexchange
  have hknown := ((known_start deadline port wakeTimeout).run hrun).1
  refine goesBy_of_keyed hknown hexchange (keyed_of_run hrun hx) ?_
  rw [requestKey?_of_spelling hname hspells, String.ofList_toList]

/-- A host has no key when it is blank or a mere port, and otherwise is cut off at its port.  One
that stands in a request goes before the authority of the target.  However a bare host is spelt
there, it is the key, and all requests that spell it share the record and the wake of it. -/
theorem spellings_share_key (deadline wakeTimeout : Duration) (port : UInt16) :
    (∀ host, hostKey? host = none ↔ Text.trim host = [] ∨
      ∃ rest, Text.trim host = ':' :: rest ∧ ':' ∉ rest ∧ ']' ∉ rest) ∧
    (∀ host key, hostKey? host = some key ↔ key ≠ [] ∧ CutsTo (Text.trim host) key) ∧
    (∀ headers host, (headers.find? "host").bind Http.Header.text? = some host →
      ∀ uri, requestKey? headers uri = (hostKey? host).map String.ofList) ∧
    (∀ headers, (headers.find? "host").bind Http.Header.text? = none →
      ∀ uri : Http.Uri, requestKey? headers uri =
        (uri.authority?.bind fun authority => hostKey? authority.toList).map String.ofList) ∧
    ∀ name, IsBareHost name.toList →
      (∀ host, IsSpelling name.toList host → hostKey? host = some name.toList) ∧
      (∀ headers, SpellsHost headers name.toList →
        ∀ uri, requestKey? headers uri = some name) ∧
      ∀ es r, Run.after? step (start deadline port wakeTimeout) es = some r →
        ∀ exchange ∈ r.exchanges, SpellsHost exchange.request.headers name.toList →
          r.GoesBy name exchange ∧
          ∀ other ∈ r.exchanges, SpellsHost other.request.headers name.toList →
            other.key = exchange.key ∧
            ∀ e e', r.Expects exchange e → r.Expects other e' → e = e' := by
  refine ⟨fun _ => hostKey?_eq_none_iff, fun _ _ => hostKey?_eq_some_iff,
    fun _ _ => requestKey?_of_text, fun _ => requestKey?_of_no_text, fun name hname =>
      ⟨fun _ => hostKey?_of_spelling hname, fun headers hspells uri => ?_, ?_⟩⟩
  · rw [requestKey?_of_spelling hname hspells, String.ofList_toList]
  · intro es r hrun exchange hexchange hspells
    have hfirst := goesBy_of_run hrun hname hexchange hspells
    refine ⟨hfirst, fun other hother hspells' => ?_⟩
    have hsecond := goesBy_of_run hrun hname hother hspells'
    exact ⟨hsecond.key.trans hfirst.key.symm, fun _ _ => hfirst.one_wake hsecond⟩

/-- A request that spells a literal address in one way or another. -/
def literalRequest (host target : String) : Http.Request :=
  ⟨"GET", ⟨none, none, some target⟩, .v11, [.ofText "host" host], .empty⟩

/-- The second request comes while the machine wakes up for the first. -/
def twoSpellings : List Event :=
  [.request 1 (literalRequest "[fd00::5]:8443" "/a") none false,
    .upkeep (.manager (.described 1 (.ok [⟨"vm-1", "10.0.0.5", "Paused", ["[fd00::5]"]⟩]))),
    .upkeep (.manager (.engage 1)),
    .request 2 (literalRequest " [fd00::5]" "/b") none false,
    .upkeep (.manager (.engage 2))]

theorem spellings_share_key_twoSpellings :
    ∃ r first second,
      Run.after? step (start Manager.defaultResumeDeadline 80 (.ofSeconds 60)) twoSpellings =
        some r ∧
      r.exchanges = [first, second] ∧
      SpellsHost first.request.headers "[fd00::5]".toList ∧
      SpellsHost second.request.headers "[fd00::5]".toList ∧
      r.GoesBy "[fd00::5]" first ∧ second.key = first.key ∧
      r.Expects first 1 ∧ r.Expects second 1 ∧ ∀ e, r.Expects second e → e = 1 := by
  have hname : IsBareHost "[fd00::5]".toList := .literal "fd00::5".toList
  have hported : IsSpelling "[fd00::5]".toList
      ([] ++ ("[fd00::5]".toList ++ ':' :: "8443".toList) ++ []) :=
    .port (by simp) (by decide) (by decide)
  have hblank : IsSpelling "[fd00::5]".toList ([' '] ++ "[fd00::5]".toList ++ []) :=
    .bare (by simp [Text.isBlank])
  obtain ⟨r, first, second, hrun, hexchanges, hfirst, hsecond, hexpects, hexpects'⟩ :
      ∃ r first second,
        Run.after? step (start Manager.defaultResumeDeadline 80 (.ofSeconds 60)) twoSpellings =
          some r ∧
        r.exchanges = [first, second] ∧
        first.request = literalRequest "[fd00::5]:8443" "/a" ∧
        second.request = literalRequest " [fd00::5]" "/b" ∧
        r.Expects first 1 ∧ r.Expects second 1 :=
    ⟨_, _, _, rfl, rfl, rfl, rfl, ⟨1, _, ⟨1, 0, .ofSeconds 60⟩, rfl, rfl, rfl, rfl, rfl⟩,
      2, _, ⟨1, 0, .ofSeconds 60⟩, rfl, rfl, rfl, rfl, rfl⟩
  have hspells : SpellsHost first.request.headers "[fd00::5]".toList :=
    ⟨_, by rw [hfirst]; decide +kernel, hported⟩
  have hspells' : SpellsHost second.request.headers "[fd00::5]".toList :=
    ⟨_, by rw [hsecond]; decide +kernel, hblank⟩
  obtain ⟨-, -, -, -, hshared⟩ :=
    spellings_share_key Manager.defaultResumeDeadline (.ofSeconds 60) 80
  obtain ⟨-, -, hruns⟩ := hshared "[fd00::5]" hname
  obtain ⟨hgoes, hothers⟩ := hruns _ r hrun first (by simp [hexchanges]) hspells
  obtain ⟨hkey, hwake⟩ := hothers second (by simp [hexchanges]) hspells'
  exact ⟨r, first, second, hrun, hexchanges, hspells, hspells', hgoes, hkey, hexpects,
    hexpects', fun e he => (hwake 1 e hexpects he).symm⟩

end WakeRouter.Router
