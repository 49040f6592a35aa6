import WakeRouter.Proofs.Proxy.HostKey
import WakeRouter.Proofs.Router.Waiting

/-!
# Questions and requests agree

A question about a domain and a request that names it as its host read one record, which says
once and for all whether there is a machine.  So no request is told that there is none after a
question was answered yes, and after a question was answered no, or a request was refused, all
later ones are.
-/

namespace WakeRouter

/-! ## What the two are told -/

namespace Http.Response

theorem status_routed (method : String) (response : Response) :
    (response.routed method).status = response.status := by
  unfold routed
  split <;> rfl

end Http.Response

/-- The status of the response, when the router gave it by itself. -/
def Exchange.ownStatus? (exchange : Exchange) : Option Nat :=
  match exchange.phase with
  | .refused refusal => some (refusal.response.routed exchange.request.method).status
  | _ => none

theorem Exchange.ownStatus?_eq_404_iff {exchange : Exchange} :
    exchange.ownStatus? = some 404 ↔ ∃ key, exchange.phase = .refused (.notFound key) := by
  unfold ownStatus?
  cases hphase : exchange.phase with
  | refused refusal =>
      simp only [Http.Response.status_routed]
      cases refusal <;> simp [Refusal.response, Http.Response.ofText]
  | ensuring | forwarded | answered | tunnelling | closed | dropped => simp

/-- The request names the domain as its host, with or without a port. -/
def Exchange.Names (exchange : Exchange) (domain : String) : Prop :=
  ∃ host, IsHostOf domain.toList host ∧ NamesHost exchange.request.headers exchange.request.uri host

def Ask.status? (ask : Ask) : Option Nat :=
  ask.response?.map Http.Response.status

/-- How far a question about the domain can have come. -/
inductive AskKnown (m : Manager) (domain : String) : AskPhase → Prop
  | looking {c : CallerId} {since : Instant} {caller : Caller}
      (hcaller : m.callers.find? c = some caller) (hkey : caller.key = domain)
      (hpurpose : caller.purpose = .lookup) : AskKnown m domain (.looking c since)
  | failed : AskKnown m domain (.answered .lookupFailed)
  | dropped : AskKnown m domain .dropped
  | approved {record : Record} (hrecord : m.records.find? domain = some record)
      (hstate : record.state ≠ .notFound) : AskKnown m domain (.answered .approved)
  | absent (hstate : m.state? domain = some .notFound) :
      AskKnown m domain (.answered .notFound)

variable {m m' : Manager} {domain : String}

theorem AskKnown.reaches {phase : AskPhase} (hknown : AskKnown m domain phase)
    (hm : m.Consistent) (hreaches : m.Reaches m') : AskKnown m' domain phase := by
  cases hknown with
  | looking hcaller hkey hpurpose =>
      obtain ⟨caller', hcaller', hkey', hpurpose'⟩ :=
        Manager.find?_caller_of_reaches hreaches hcaller
      exact .looking hcaller' (hkey'.trans hkey) (hpurpose'.trans hpurpose)
  | failed => exact .failed
  | dropped => exact .dropped
  | approved hrecord hstate =>
      obtain ⟨record', hrecord', hsame⟩ := Manager.find?_of_reaches hm hreaches hrecord
      exact .approved hrecord' fun hnone => hstate (hsame.mp hnone)
  | absent hstate => exact .absent (Manager.notFound_of_reaches hm hreaches hstate)

/-- The answer of its caller answers the question. -/
theorem askKnown_of_answer (hm : m.Reachable) {c : CallerId} {caller : Caller} {a : Answer}
    (hcaller : m.callers.find? c = some caller) (hkey : caller.key = domain)
    (hpurpose : caller.purpose = .lookup) (hanswer : caller.answer? = some a) :
    AskKnown m domain (.answered (.ofAnswer a)) := by
  have hlooks := (hm.told hcaller).looked hpurpose
  rw [Caller.answer?_eq_some_iff.mp hanswer, hkey] at hlooks
  cases hlooks with
  | failed => exact .failed
  | @shown s record hrecord hsame =>
      by_cases hnone : s.state = .notFound
      · simp only [AskVerdict.ofAnswer, if_pos hnone]
        exact .absent (Manager.state?_eq_some_iff.mpr ⟨record, hrecord, hsame.mp hnone⟩)
      · simp only [AskVerdict.ofAnswer, if_neg hnone]
        exact .approved hrecord fun habsent => hnone (hsame.mpr habsent)

theorem Ask.status?_of_answered {ask : Ask} {verdict : AskVerdict}
    (hphase : ask.phase = .answered verdict) :
    ask.status? = some (verdict.response ask.method).status := by
  simp [status?, response?, hphase]

theorem AskKnown.of_status {ask : Ask} (hknown : AskKnown m domain ask.phase) :
    (ask.status? = some 200 → m.state? domain ≠ some .notFound) ∧
      (ask.status? = some 404 → m.state? domain = some .notFound) := by
  generalize hphase : ask.phase = phase at hknown
  cases hknown with
  | looking | dropped => simp [Ask.status?, Ask.response?, hphase]
  | failed =>
      simp [Ask.status?_of_answered hphase, AskVerdict.response, Http.Response.status_routed,
        Http.Response.ofText]
  | @approved record hrecord hstate =>
      have hfound : m.state? domain ≠ some .notFound := by
        simpa [Manager.state?, hrecord] using hstate
      refine ⟨fun _ => hfound, fun hstatus => ?_⟩
      simp [Ask.status?_of_answered hphase, AskVerdict.response, Http.Response.status_routed,
        Http.Response.ofText] at hstatus
  | absent hstate =>
      refine ⟨fun hstatus => ?_, fun _ => hstate⟩
      simp [Ask.status?_of_answered hphase, AskVerdict.response, Http.Response.status_routed,
        Http.Response.ofText] at hstatus

namespace Router

variable {r next : Router}

/-! ## Questions -/

/-- The question is about the domain. -/
def Poses (r : Router) (a : AskId) (domain : String) : Prop :=
  ∃ ask, r.asks[a]? = some ask ∧ AskKnown r.manager domain ask.phase

theorem Poses.of_same {a : AskId} (hr : r.Poses a domain) (hm : r.manager.Consistent)
    (hreaches : r.manager.Reaches next.manager)
    (hasks : ∀ {ask : Ask}, r.asks[a]? = some ask → next.asks[a]? = some ask) :
    next.Poses a domain := by
  obtain ⟨ask, hask, hknown⟩ := hr
  exact ⟨ask, hasks hask, hknown.reaches hm hreaches⟩

/-- A question is done with, of which nothing is said. -/
theorem Poses.of_ask {a : AskId} (hr : r.Poses a domain) (hm : r.manager.Consistent)
    (hreaches : r.manager.Reaches next.manager) (b : AskId) {phase : AskPhase}
    (hphase : r.asks[b]? ≠ none → b = a → AskKnown next.manager domain phase)
    (hasks : next.asks = r.asks.modify b fun ask => { ask with phase := phase }) :
    next.Poses a domain := by
  obtain ⟨ask, hask, hknown⟩ := hr
  by_cases hsame : b = a
  · subst hsame
    refine ⟨{ ask with phase := phase }, ?_, hphase (by simp [hask]) rfl⟩
    rw [hasks, List.getElem?_modify_eq, hask]
    rfl
  · refine ⟨ask, ?_, hknown.reaches hm hreaches⟩
    rw [hasks, List.getElem?_modify_ne _ _ hsame, hask]

theorem Poses.attend {a : AskId} (hr : r.Poses a domain) (hm : r.manager.Reachable)
    (c : CallerId) : (r.attend c).Poses a domain := by
  have hreaches := (visited_attend r c).manager.reaches
  have hattended := attended r c
  generalize r.attend c = next at hreaches hattended
  cases hattended with
  | aside => exact hr
  | @dispatched x exchange answer =>
      obtain ⟨_, _, _, _, hasks⟩ := exists_dispatch r x exchange answer
      exact hr.of_same hm.consistent hreaches fun hask => hasks ▸ hask
  | @told b ask since answer hanswer _ hask hphase =>
      refine hr.of_ask hm.consistent hreaches b (fun _ hsame => ?_) rfl
      subst hsame
      obtain ⟨ask', hask', hknown⟩ := hr
      obtain rfl := Option.some.inj (hask.symm.trans hask')
      rw [hphase] at hknown
      cases hknown with
      | @looking _ _ caller hcaller hkey hpurpose =>
          rw [hcaller, Option.bind_some] at hanswer
          exact askKnown_of_answer hm hcaller hkey hpurpose hanswer

theorem Poses.ask {a : AskId} (hr : r.Poses a domain) (hm : r.manager.Reachable) {c : CallerId}
    (hfresh : r.manager.callers.find? c = none) (method : String) (uri : Http.Uri) :
    (r.ask c method uri).Poses a domain := by
  have hstays : ∀ {ask : Ask} (new : Ask), r.asks[a]? = some ask →
      (r.asks ++ [new])[a]? = some ask := by
    intro ask new hask
    rwa [List.getElem?_append_left (List.getElem?_eq_some_iff.mp hask).1]
  cases hquestion : Ask.question? method uri with
  | error verdict =>
      rw [ask_of_error hquestion]
      exact hr.of_same hm.consistent .refl (hstays _)
  | ok other =>
      rw [ask_of_ok hquestion]
      have hreaches := reaches_withQuestion hfresh method other
      have hrest : (r.withQuestion c method other).Poses a domain :=
        hr.of_same hm.consistent hreaches (hstays _)
      exact hrest.attend (hm.reaches hreaches) c

theorem poses_ask (hm : r.manager.Reachable) {c : CallerId}
    (hfresh : r.manager.callers.find? c = none) {method : String} {uri : Http.Uri}
    (hquestion : Ask.question? method uri = .ok domain) :
    (r.ask c method uri).Poses r.asks.length domain := by
  rw [ask_of_ok hquestion]
  have hposes : (r.withQuestion c method domain).Poses r.asks.length domain :=
    ⟨_, List.getElem?_concat_length, .looking (find?_caller_withQuestion hfresh method domain)
      rfl rfl⟩
  exact hposes.attend (hm.reaches (reaches_withQuestion hfresh method domain)) c

theorem Poses.step {a : AskId} (hr : r.Poses a domain) (hm : r.manager.Reachable) {e : Event}
    (hstep : r.step e = some next) : next.Poses a domain := by
  have hreaches := reaches_of_step hstep
  cases move_of_step hstep with
  | @heard e m c hheard _ =>
      have hreaches := Manager.reaches_of_step hheard
      have hrest : (r.withManager m).Poses a domain := hr.of_same hm.consistent hreaches id
      exact hrest.attend (hm.reaches hreaches) c
  | unheard | watched | shutDown | replied | close | abandon | hangUp =>
      exact hr.of_same hm.consistent hreaches id
  | @request c request client? upgradable hfresh =>
      refine hr.of_same hm.consistent hreaches fun hask => ?_
      unfold Router.request
      split <;> exact hask
  | @ask c method uri hfresh => exact hr.ask hm hfresh method uri
  | @expire b => exact hr.of_ask hm.consistent hreaches b (fun _ _ => .failed) rfl
  | @dropAsk b => exact hr.of_ask hm.consistent hreaches b (fun _ _ => .dropped) rfl

/-- A question about a domain without a machine is answered at once. -/
theorem answered_of_absent (hr : r.Known) (hstate : r.manager.state? domain = some .notFound)
    {c : CallerId} (hfresh : r.manager.callers.find? c = none) {method : String} {uri : Http.Uri}
    (hquestion : Ask.question? method uri = .ok domain) :
    (r.ask c method uri).asks[r.asks.length]? = some ⟨method, .answered .notFound⟩ := by
  obtain ⟨record, hrecord, hnone⟩ := Manager.state?_eq_some_iff.mp hstate
  have hcaller := find?_caller_withQuestion hfresh method domain
  have hanswer : ((r.withQuestion c method domain).manager.callers.find? c).bind Caller.answer? =
      some (.record (record.snapshot r.manager.now domain)) := by
    rw [hcaller]
    simp [Caller.answer?, Manager.reception, hrecord]
  have hask : (r.withQuestion c method domain).asks[r.asks.length]? =
      some ⟨method, .looking c r.now⟩ := List.getElem?_concat_length
  rw [ask_of_ok hquestion]
  have hattended := attended (r.withQuestion c method domain) c
  generalize (r.withQuestion c method domain).attend c = next at hattended
  cases hattended with
  | aside hnothing =>
      rcases hnothing with hsilent | hnobody
      · rw [hanswer] at hsilent
        cases hsilent
      · rw [owns_of_looking hask rfl] at hnobody
        cases hnobody
  | @dispatched x exchange a _ hexchange hphase =>
      exact absurd rfl (hr.sound.ne_of_fresh hfresh hexchange hphase)
  | @told a ask since answer hanswer' _ hlooking hphase =>
      rcases getElem?_concat hlooking with hold | ⟨rfl, _⟩
      · obtain ⟨caller, hcaller', _⟩ := hr.sound.looking hold hphase
        rw [hfresh] at hcaller'
        cases hcaller'
      · obtain rfl := Option.some.inj (hanswer.symm.trans hanswer')
        show (List.modify _ _ _)[r.asks.length]? = _
        rw [List.getElem?_modify_eq, hask]
        simp [AskVerdict.ofAnswer, Record.snapshot, hnone]

/-! ## Requests without a machine -/

/-- The request can only be refused, unless its client goes away. -/
structure Doomed (r : Router) (x : ExchangeId) (c : CallerId) (key : String) (gone : Prop) :
    Prop where
  hopeless : r.manager.Hopeless c key
  exchange : ∃ exchange, r.exchanges[x]? = some exchange ∧ exchange.key = key ∧
    (exchange.phase = .ensuring c ∨ exchange.phase = .refused (.notFound key) ∨
      exchange.phase = .dropped ∧ gone)

variable {x : ExchangeId} {c : CallerId} {key : String} {gone : Prop}

theorem Doomed.of_same (hr : r.Doomed x c key gone) (hm : r.manager.Consistent)
    (hreaches : r.manager.Reaches next.manager)
    (hexchanges : ∀ {exchange : Exchange}, r.exchanges[x]? = some exchange →
      next.exchanges[x]? = some exchange) : next.Doomed x c key gone := by
  obtain ⟨exchange, hexchange, hrest⟩ := hr.exchange
  exact ⟨hr.hopeless.reaches hm hreaches, exchange, hexchanges hexchange, hrest⟩

/-- Another request may go on meanwhile. -/
theorem Doomed.of_exchange (hr : r.Doomed x c key gone) (hm : r.manager.Consistent)
    (hreaches : r.manager.Reaches next.manager) (y : ExchangeId) {phase : ExchangePhase}
    (hphase : y = x → phase = .refused (.notFound key) ∨ phase = .dropped ∧ gone)
    (hexchanges : next.exchanges = withPhase r.exchanges y phase) :
    next.Doomed x c key gone := by
  refine ⟨hr.hopeless.reaches hm hreaches, ?_⟩
  obtain ⟨exchange, hexchange, hkey, hrest⟩ := hr.exchange
  rw [hexchanges, getElem?_withPhase]
  split
  next hsame =>
    refine ⟨{ exchange with phase := phase }, by rw [hexchange]; rfl, hkey, ?_⟩
    exact .inr (hphase hsame.symm)
  next => exact ⟨exchange, hexchange, hkey, hrest⟩

theorem Doomed.attend (hr : r.Doomed x c key gone) (hm : r.manager.Consistent) (c' : CallerId) :
    (r.attend c').Doomed x c key gone := by
  have hreaches := (visited_attend r c').manager.reaches
  have hattended := attended r c'
  generalize r.attend c' = next at hreaches hattended
  cases hattended with
  | aside => exact hr
  | told => exact hr.of_same hm hreaches id
  | @dispatched y other a hanswer hother hphase =>
      by_cases hsame : y = x
      · subst hsame
        obtain ⟨exchange, hexchange, hkey, hrest⟩ := id hr.exchange
        obtain rfl := Option.some.inj (hexchange.symm.trans hother)
        obtain rfl : c' = c := by simpa [hphase] using hrest
        obtain rfl := hr.hopeless.answer_eq hanswer
        refine hr.of_exchange hm hreaches y (fun _ => .inl rfl) ?_
        simp [dispatch, Refusal.ofError, ManagerError.isNotFound, hkey, setExchange, withPhase]
      · obtain ⟨phase, _, hexchanges, _⟩ := exists_dispatch r y other a
        exact hr.of_exchange hm hreaches y (fun h => absurd h hsame) hexchanges

theorem Doomed.mono {gone' : Prop} (hr : r.Doomed x c key gone) (hgone : gone → gone') :
    r.Doomed x c key gone' := by
  obtain ⟨hopeless, exchange, hexchange, hkey, hphase⟩ := hr
  exact ⟨hopeless, exchange, hexchange, hkey, hphase.imp_right (.imp_right (.imp_right hgone))⟩

/-- The request has not come as far as its machine. -/
theorem Doomed.ne_of_underWay (hr : r.Doomed x c key gone) {y : ExchangeId} {other : Exchange}
    (hother : r.exchanges[y]? = some other) (hphase : other.phase.isUnderWay) : y ≠ x := by
  rintro rfl
  obtain ⟨exchange, hexchange, _, hrest⟩ := hr.exchange
  obtain rfl := Option.some.inj (hexchange.symm.trans hother)
  rcases hrest with hrest | hrest | ⟨hrest, _⟩ <;> simp [hrest, ExchangePhase.isUnderWay] at hphase

theorem Doomed.step (hr : r.Doomed x c key gone) (hm : r.manager.Reachable) {e : Event}
    (hstep : r.step e = some next) : next.Doomed x c key (gone ∨ e = .dropRequest x) := by
  have hreaches := reaches_of_step hstep
  have hr' : r.Doomed x c key (gone ∨ e = .dropRequest x) := hr.mono .inl
  cases move_of_step hstep with
  | @heard e m c' hheard _ =>
      have hreaches := Manager.reaches_of_step hheard
      have hrest : (r.withManager m).Doomed x c key _ := hr'.of_same hm.consistent hreaches id
      exact hrest.attend (hm.reaches hreaches).consistent c'
  | unheard | watched | shutDown | expire | dropAsk => exact hr'.of_same hm.consistent hreaches id
  | @request c' request client? upgradable hfresh =>
      refine hr'.of_same hm.consistent hreaches fun hexchange => ?_
      unfold Router.request
      have hx := (List.getElem?_eq_some_iff.mp hexchange).1
      split <;> exact (List.getElem?_append_left hx).trans hexchange
  | @ask c' method uri hfresh =>
      cases hquestion : Ask.question? method uri with
      | error verdict =>
          rw [ask_of_error hquestion]
          exact hr'.of_same hm.consistent .refl id
      | ok other =>
          rw [ask_of_ok hquestion]
          have hreaches := reaches_withQuestion hfresh method other
          have hrest : (r.withQuestion c' method other).Doomed x c key _ :=
            hr'.of_same hm.consistent hreaches id
          exact hrest.attend (hm.reaches hreaches).consistent c'
  | @replied y other sent reply hother hphase =>
      have hne := hr.ne_of_underWay hother (by rw [hphase]; rfl)
      exact hr'.of_exchange hm.consistent hreaches y (fun h => absurd h hne) rfl
  | @close y other response hother hphase | @hangUp y other sent hother hphase =>
      have hne := hr.ne_of_underWay hother (by rw [hphase]; rfl)
      exact hr'.of_exchange hm.consistent hreaches y (fun h => absurd h hne) rfl
  | @abandon y =>
      refine hr'.of_exchange hm.consistent hreaches y (fun hsame => .inr ⟨rfl, .inr ?_⟩) rfl
      rw [hsame]

/-- When its caller looks, the request is refused. -/
theorem Doomed.step_engage (hr : r.Doomed x c key gone) (hknown : r.Known) {exchange : Exchange}
    (hexchange : r.exchanges[x]? = some exchange) (hphase : exchange.phase = .ensuring c) :
    ∃ next, r.step (.upkeep (.manager (.engage c))) = some next ∧
      next.exchanges[x]? = some { exchange with phase := .refused (.notFound key) } := by
  obtain ⟨caller, hcaller, hpending⟩ := hknown.pending x exchange c hexchange hphase
  obtain ⟨exchange', hexchange', hkey, _⟩ := hr.exchange
  obtain rfl := Option.some.inj (hexchange.symm.trans hexchange')
  have hengage := hr.hopeless.step_engage hcaller hpending
  generalize hm : r.manager.setPhase c (.answered (.error (.notFound key))) = m at hengage
  have hanswer : (m.callers.find? c).bind Caller.answer? = some (.error (.notFound key)) := by
    rw [← hm, Manager.find?_callers_setPhase, if_pos rfl, hcaller]
    rfl
  have hstep : r.step (.upkeep (.manager (.engage c))) = some ((r.withManager m).attend c) := by
    simp [Router.step, withdrawn?, subject?, hengage]
  refine ⟨_, hstep, ?_⟩
  have hattended := attended (r.withManager m) c
  generalize (r.withManager m).attend c = next at hattended
  cases hattended with
  | aside hnothing =>
      have howns : (r.withManager m).owns c := owns_of_ensuring hexchange hphase
      rcases hnothing with hsilent | hnobody
      · cases hsilent.symm.trans hanswer
      · rw [howns] at hnobody
        cases hnobody
  | @dispatched y other a hanswer' hother hwaits =>
      obtain rfl := hknown.sound.distinct hexchange hphase hother hwaits
      obtain rfl := Option.some.inj (hexchange.symm.trans hother)
      obtain rfl := Option.some.inj (hanswer.symm.trans hanswer')
      show (withPhase r.exchanges x (.refused (.ofError exchange.key _)))[x]? = _
      rw [getElem?_withPhase, if_pos rfl, hexchange, ← hkey]
      rfl
  | told _ hexchanges =>
      exact absurd hphase (hexchanges exchange (List.mem_of_getElem? hexchange))

theorem doomed_request (hm : r.manager.Consistent) {request : Http.Request}
    (hfresh : r.manager.callers.find? c = none)
    (hkey : requestKey? request.headers request.uri = some key)
    (hstate : r.manager.state? key = some .notFound) (client? : Option Net.Ip)
    (upgradable : Bool) (gone : Prop) :
    (r.request c request client? upgradable).Doomed r.exchanges.length c key gone := by
  have hstep : r.manager.step (.ensure c key r.wakeTimeout r.stopping) = some _ :=
    (Manager.Move.ensure hfresh).step_eq
  unfold Router.request
  rw [hkey]
  exact ⟨Manager.hopeless_of_ensure hm.callers hstep hstate, _, List.getElem?_concat_length, rfl,
    .inl rfl⟩

/-! ## Calls -/

/-- The call that begins with the event.  What the watcher calls for belongs to no request. -/
def call? (r : Router) : Event → Option Manager.Call
  | .upkeep (.manager e) => r.manager.call? e
  | .request c request _ _ =>
    (requestKey? request.headers request.uri).bind fun key =>
      r.manager.call? (.ensure c key r.wakeTimeout r.stopping)
  | .ask c method uri =>
    match Ask.question? method uri with
    | .ok domain => r.manager.call? (.lookup c domain)
    | .error _ => none
  | _ => none

theorem exists_of_call {e : Event} (hstep : r.step e = some next) {call : Manager.Call}
    (hcall : r.call? e = some call) :
    ∃ heard m, r.manager.step heard = some m ∧ r.manager.call? heard = some call ∧
      m.Reaches next.manager := by
  cases move_of_step hstep with
  | @heard e m c hheard _ =>
      exact ⟨e, m, hheard, hcall, (visited_attend (r.withManager m) c).manager.reaches⟩
  | @unheard e m hheard => exact ⟨e, m, hheard, hcall, .refl⟩
  | @watched e u hother hu =>
      cases e with
      | manager heard => exact absurd rfl (hother heard)
      | _ => cases hcall
  | @request c request client? upgradable hfresh =>
      obtain ⟨key, hkey, hcall⟩ := Option.bind_eq_some_iff.mp hcall
      refine ⟨_, _, (Manager.Move.ensure hfresh).step_eq, hcall, ?_⟩
      unfold Router.request
      rw [hkey]
      exact .refl
  | @ask c method uri hfresh =>
      cases hquestion : Ask.question? method uri with
      | error verdict => simp [call?, hquestion] at hcall
      | ok domain =>
          simp only [call?, hquestion] at hcall
          rw [ask_of_ok hquestion]
          exact ⟨_, _, (Manager.Move.lookup hfresh).step_eq, hcall,
            (visited_attend (r.withQuestion c method domain) c).manager.reaches⟩
  | replied | close | abandon | hangUp | expire | dropAsk | shutDown => cases hcall

theorem find?_caller_of_call (hm : r.manager.Consistent) {e : Event}
    (hstep : r.step e = some next) {call : Manager.Call} (hcall : r.call? e = some call) :
    next.manager.callers.find? call.caller ≠ none := by
  obtain ⟨heard, m, hheard, hcall, hreaches⟩ := exists_of_call hstep hcall
  obtain ⟨caller, hcaller⟩ := Option.ne_none_iff_exists'.mp
    (Manager.find?_caller_of_call hm.callers hheard hcall)
  obtain ⟨caller', hcaller', _⟩ := Manager.find?_caller_of_reaches hreaches hcaller
  simp [hcaller']

theorem Doomed.caller_ne (hr : r.Doomed x c key gone) {e : Event} (hstep : r.step e = some next)
    {call : Manager.Call} (hcall : r.call? e = some call) : call.caller ≠ c := by
  obtain ⟨heard, m, hheard, hcall, _⟩ := exists_of_call hstep hcall
  exact hr.hopeless.caller_ne hheard hcall

/-! ## The law -/

/-- In the step the question with that name comes, which is about the domain. -/
def Asks (t : Run.Transition Router Event) (a : AskId) (domain : String) : Prop :=
  ∃ c method uri, t.event = .ask c method uri ∧ Ask.question? method uri = .ok domain ∧
    a = t.before.asks.length

/-- In the step the request with that name comes, which names the domain as its host. -/
def Requests (t : Run.Transition Router Event) (x : ExchangeId) (c : CallerId) (domain : String) :
    Prop :=
  ∃ request client? upgradable host, t.event = .request c request client? upgradable ∧
    IsHostOf domain.toList host ∧ NamesHost request.headers request.uri host ∧
    x = t.before.exchanges.length

/-- The request has been refused, or is about to be as soon as its caller looks, unless its
client went away. -/
def Refuses (r : Router) (x : ExchangeId) (c : CallerId) (key : String) (gone : Prop) : Prop :=
  ∃ exchange, r.exchanges[x]? = some exchange ∧
    (exchange.phase = .refused (.notFound key) ∨ exchange.phase = .dropped ∧ gone ∨
      exchange.phase = .ensuring c ∧
        ∃ next, r.step (.upkeep (.manager (.engage c))) = some next ∧
          next.exchanges[x]? = some { exchange with phase := .refused (.notFound key) })

theorem Doomed.refuses (hr : r.Doomed x c key gone) (hknown : r.Known) :
    r.Refuses x c key gone := by
  obtain ⟨exchange, hexchange, _, hphase⟩ := hr.exchange
  refine ⟨exchange, hexchange, ?_⟩
  rcases hphase with hphase | hphase | hphase
  · exact .inr (.inr ⟨hphase, hr.step_engage hknown hexchange hphase⟩)
  · exact .inl hphase
  · exact .inr (.inl hphase)

theorem Known.run (hr : r.Known) {es : List Event}
    (hrun : Run.after? Router.step r es = some next) :
    next.Known ∧ r.manager.Reaches next.manager :=
  Run.trail_induction (P := fun _ s => s.Known ∧ r.manager.Reaches s.manager)
    (fun hs hstep => ⟨hs.1.step hstep, hs.2.trans (reaches_of_step hstep)⟩) [] ⟨hr, .refl⟩ hrun

theorem Known.absent_of_refused (hr : r.Known) (hdomain : IsDomain domain.toList)
    {exchange : Exchange} (hexchange : exchange ∈ r.exchanges) (hnames : exchange.Names domain)
    (hrefused : exchange.ownStatus? = some 404) : r.manager.state? domain = some .notFound := by
  obtain ⟨key, hphase⟩ := Exchange.ownStatus?_eq_404_iff.mp hrefused
  obtain ⟨x, hx⟩ := List.mem_iff_getElem?.mp hexchange
  obtain ⟨hkey, hstate⟩ := hr.sound.refused hx hphase
  obtain ⟨host, hhost, hnames⟩ := hnames
  rw [requestKey?_of_names hdomain hhost hnames] at hkey
  exact Option.some.inj hkey ▸ hstate

/-- What is known of a router after a run, and of the questions that came in it. -/
theorem poses_of_run {resumeDeadline : Duration} {port : UInt16} {wakeTimeout : Duration}
    {es : List Event} (hrun : Run.after? step (start resumeDeadline port wakeTimeout) es = some r) :
    r.Known ∧ ∀ t ∈ Run.trail step (start resumeDeadline port wakeTimeout) es, ∀ a domain,
      Asks t a domain → r.Poses a domain := by
  apply Run.trail_induction (P := fun ts r => r.Known ∧ ∀ t ∈ ts, ∀ a domain, Asks t a domain →
    r.Poses a domain) _ [] _ hrun
  · rintro ts r e next ⟨hr, hposes⟩ hstep
    refine ⟨hr.step hstep, fun t ht a domain hasks => ?_⟩
    rcases List.mem_append.mp ht with ht | ht
    · exact (hposes t ht a domain hasks).step hr.reachable hstep
    · obtain rfl := List.mem_singleton.mp ht
      obtain ⟨c, method, uri, hevent, hquestion, rfl⟩ := hasks
      obtain rfl : e = .ask c method uri := hevent
      cases move_of_step hstep with
      | ask hfresh => exact poses_ask hr.reachable hfresh hquestion
  · exact ⟨known_start resumeDeadline port wakeTimeout, by simp⟩

/-- What happens to the requests for a domain without a machine. -/
structure Refusing (ts : List (Run.Transition Router Event)) (r : Router) (domain : String) :
    Prop where
  known : r.Known
  absent : r.manager.state? domain = some .notFound
  callers : ∀ {s call}, s ∈ ts → s.before.call? s.event = some call →
    r.manager.callers.find? call.caller ≠ none
  doomed : ∀ {t x c}, t ∈ ts → Requests t x c domain →
    r.Doomed x c domain (∃ s ∈ ts, s.event = .dropRequest x)
  idle : ∀ {t x c s call}, t ∈ ts → Requests t x c domain → s ∈ ts →
    s.before.call? s.event = some call → call.caller ≠ c

theorem Refusing.step {ts : List (Run.Transition Router Event)} (hdomain : IsDomain domain.toList)
    (hr : Refusing ts r domain) {e : Event} (hstep : r.step e = some next) :
    Refusing (ts ++ [⟨r, e, next⟩]) next domain := by
  have hconcat : ∀ {t}, t ∈ ts ++ [⟨r, e, next⟩] → t ∈ ts ∨ t = ⟨r, e, next⟩ := by
    intro t ht
    simpa using ht
  have hm := hr.known.reachable.consistent
  have hreaches := reaches_of_step hstep
  -- The request that comes in this step has a caller that nobody knew before, and calls nobody.
  have hnew : ∀ {x c}, Requests ⟨r, e, next⟩ x c domain →
      r.manager.callers.find? c = none ∧ r.call? e = none ∧
        ∀ gone, next.Doomed x c domain gone := by
    rintro x c ⟨request, client?, upgradable, host, hevent, hhost, hnames, rfl⟩
    obtain rfl : e = .request c request client? upgradable := hevent
    cases move_of_step hstep with
    | request hfresh =>
        have hkey := requestKey?_of_names hdomain hhost hnames
        refine ⟨hfresh, ?_, doomed_request hm hfresh hkey hr.absent client? upgradable⟩
        obtain ⟨record, hrecord, _⟩ := Manager.state?_eq_some_iff.mp hr.absent
        simp [call?, hkey, Manager.call?, hrecord]
  constructor
  case known => exact hr.known.step hstep
  case absent => exact Manager.notFound_of_reaches hm hreaches hr.absent
  case callers =>
    intro s call hs hcall
    rcases hconcat hs with hs | rfl
    · obtain ⟨caller, hcaller⟩ := Option.ne_none_iff_exists'.mp (hr.callers hs hcall)
      obtain ⟨caller', hcaller', _⟩ := Manager.find?_caller_of_reaches hreaches hcaller
      simp [hcaller']
    · exact find?_caller_of_call hm hstep hcall
  case doomed =>
    intro t x c ht hrequests
    rcases hconcat ht with ht | rfl
    · refine ((hr.doomed ht hrequests).step hr.known.reachable hstep).mono ?_
      rintro (⟨s, hs, hgone⟩ | hgone)
      · exact ⟨s, List.mem_append_left _ hs, hgone⟩
      · exact ⟨_, List.mem_concat_self, hgone⟩
    · exact (hnew hrequests).2.2 _
  case idle =>
    intro t x c s call ht hrequests hs hcall
    rcases hconcat ht with ht | rfl
    · rcases hconcat hs with hs | rfl
      · exact hr.idle ht hrequests hs hcall
      · exact (hr.doomed ht hrequests).caller_ne hstep hcall
    · rcases hconcat hs with hs | rfl
      · rintro rfl
        exact hr.callers hs hcall (hnew hrequests).1
      · cases (hnew hrequests).2.1.symm.trans hcall

theorem refusing_of_run (hdomain : IsDomain domain.toList) (hr : r.Known)
    (habsent : r.manager.state? domain = some .notFound) {later : List Event}
    (hlater : Run.after? step r later = some next) :
    Refusing (Run.trail step r later) next domain := by
  apply Run.trail_induction (P := fun ts r => Refusing ts r domain) _ [] _ hlater
  · exact fun hr hstep => hr.step hdomain hstep
  · constructor
    case known => exact hr
    case absent => exact habsent
    all_goals
      intros
      contradiction

theorem answered_of_trail (hr : r.Known) (habsent : r.manager.state? domain = some .notFound)
    {later : List Event} {t : Run.Transition Router Event} (ht : t ∈ Run.trail step r later)
    {a : AskId} (hasks : Asks t a domain) :
    ∃ ask, t.after.asks[a]? = some ask ∧ ask.status? = some 404 := by
  obtain ⟨⟨hbefore, hstate⟩, hstep⟩ := Run.before_of_mem_trail
    (P := fun s => s.Known ∧ s.manager.state? domain = some .notFound)
    (fun hs hstep => ⟨hs.1.step hstep, Manager.notFound_of_reaches hs.1.reachable.consistent
      (reaches_of_step hstep) hs.2⟩) ⟨hr, habsent⟩ ht
  obtain ⟨c, method, uri, hevent, hquestion, rfl⟩ := hasks
  rw [hevent] at hstep
  generalize t.after = after at hstep
  cases move_of_step hstep with
  | ask hfresh =>
      refine ⟨_, answered_of_absent hbefore hstate hfresh hquestion, ?_⟩
      rw [Ask.status?_of_answered rfl]
      simp [AskVerdict.response, Http.Response.status_routed, Http.Response.ofText]

/-- Whatever else happens in between: after a question about a domain was answered yes, no
request for the domain is told that there is no machine; after it was answered no, every request
is told so, without a call for it; and after a request was told so, every question is answered
no. -/
theorem questions_agree {resumeDeadline : Duration} {port : UInt16} {wakeTimeout : Duration}
    {es later : List Event} {mid last : Router} (hdomain : IsDomain domain.toList)
    (hrun : Run.after? step (start resumeDeadline port wakeTimeout) es = some mid)
    (hlater : Run.after? step mid later = some last) :
    (∀ s ∈ Run.trail step (start resumeDeadline port wakeTimeout) es, ∀ a ask, Asks s a domain →
      mid.asks[a]? = some ask → ask.status? = some 200 →
      ∀ exchange ∈ last.exchanges, exchange.Names domain → exchange.ownStatus? ≠ some 404) ∧
    (∀ s ∈ Run.trail step (start resumeDeadline port wakeTimeout) es, ∀ a ask, Asks s a domain →
      mid.asks[a]? = some ask → ask.status? = some 404 →
      ∀ t ∈ Run.trail step mid later, ∀ x c, Requests t x c domain →
        last.Refuses x c domain (∃ u ∈ Run.trail step mid later, u.event = .dropRequest x) ∧
        ∀ u ∈ Run.trail step mid later, ∀ call, u.before.call? u.event = some call →
          call.caller ≠ c) ∧
    (∀ exchange ∈ mid.exchanges, exchange.Names domain → exchange.ownStatus? = some 404 →
      ∀ t ∈ Run.trail step mid later, ∀ a, Asks t a domain →
        ∃ ask, t.after.asks[a]? = some ask ∧ ask.status? = some 404) := by
  obtain ⟨hknown, hposes⟩ := poses_of_run hrun
  obtain ⟨hlast, hreaches⟩ := hknown.run hlater
  refine ⟨?_, ?_, ?_⟩
  · intro s hs a ask hasks hask hstatus exchange hexchange hnames hrefused
    obtain ⟨ask', hask', hanswer⟩ := hposes s hs a domain hasks
    obtain rfl := Option.some.inj (hask.symm.trans hask')
    have hfound := (hanswer.reaches hknown.reachable.consistent hreaches).of_status.1 hstatus
    exact hfound (hlast.absent_of_refused hdomain hexchange hnames hrefused)
  · intro s hs a ask hasks hask hstatus t ht x c hrequests
    obtain ⟨ask', hask', hanswer⟩ := hposes s hs a domain hasks
    obtain rfl := Option.some.inj (hask.symm.trans hask')
    have hrefusing := refusing_of_run hdomain hknown (hanswer.of_status.2 hstatus) hlater
    exact ⟨(hrefusing.doomed ht hrequests).refuses hrefusing.known, fun u hu call hcall =>
      hrefusing.idle ht hrequests hu hcall⟩
  · intro exchange hexchange hnames hrefused t ht a hasks
    have habsent := hknown.absent_of_refused hdomain hexchange hnames hrefused
    exact answered_of_trail hknown habsent ht hasks

/-- Nobody serves the domain that is asked about. -/
def ghostAsked : List Event :=
  [.ask 1 "GET" ⟨none, none, some "/check?domain=ghost"⟩,
    .upkeep (.manager (.described 1 (.ok [])))]

def ghostRequest : Http.Request :=
  ⟨"GET", ⟨none, none, some "/"⟩, .v11, [.ofText "host" "ghost:8080"], .empty⟩

theorem question?_ghostAsked :
    Ask.question? "GET" ⟨none, none, some "/check?domain=ghost"⟩ = .ok "ghost" := by
  have hdomain : (Ask.question? "GET" ⟨none, none, some "/check?domain=ghost"⟩).toOption =
      some "ghost" := by decide +kernel
  generalize Ask.question? "GET" ⟨none, none, some "/check?domain=ghost"⟩ = answer at hdomain
  cases answer with
  | error => cases hdomain
  | ok domain =>
      cases hdomain
      rfl

theorem questions_agree_ghostAsked :
    ∃ mid last,
      Run.after? step (start Manager.defaultResumeDeadline 80 (.ofSeconds 60)) ghostAsked =
        some mid ∧
      Run.after? step mid [.request 2 ghostRequest none false] = some last ∧
      last.Refuses 0 2 "ghost" (∃ u ∈ Run.trail step mid [.request 2 ghostRequest none false],
        u.event = .dropRequest 0) := by
  have hdomain : IsDomain "ghost".toList := by
    refine ⟨List.all_eq_true.mp (by decide), by decide, by decide, ?_, ?_⟩ <;>
      · rintro _ ⟨⟩
        decide
  obtain ⟨mid, hrun, hmid⟩ := (Option.any_eq_true _ _).mp
    (show (Run.after? step (start Manager.defaultResumeDeadline 80 (.ofSeconds 60)) ghostAsked).any
      (fun mid => (Run.after? step mid [.request 2 ghostRequest none false]).isSome &&
        mid.asks.map Ask.status? == [some 404] && mid.exchanges.isEmpty) by decide +kernel)
  simp only [Bool.and_eq_true, beq_iff_eq, List.isEmpty_iff] at hmid
  obtain ⟨⟨hlater, hstatus⟩, hexchanges⟩ := hmid
  obtain ⟨last, hlater⟩ := Option.isSome_iff_exists.mp hlater
  refine ⟨mid, last, hrun, hlater, ?_⟩
  -- The first step asks, and the last one requests.
  obtain ⟨asked, hasked, _⟩ := Option.bind_eq_some_iff.mp hrun
  obtain ⟨requested, hrequested, _⟩ := Option.bind_eq_some_iff.mp hlater
  obtain ⟨ask, hask, hno⟩ : ∃ ask, mid.asks[0]? = some ask ∧ ask.status? = some 404 := by
    obtain ⟨ask, hsingle, hno⟩ := List.map_eq_singleton_iff.mp hstatus
    exact ⟨ask, by rw [hsingle]; rfl, hno⟩
  obtain ⟨_, hrefused, _⟩ := questions_agree hdomain hrun hlater
  have hasks : Asks ⟨start Manager.defaultResumeDeadline 80 (.ofSeconds 60),
      .ask 1 "GET" ⟨none, none, some "/check?domain=ghost"⟩, asked⟩ 0 "ghost" :=
    ⟨1, _, _, rfl, question?_ghostAsked, rfl⟩
  have hrequests : Requests ⟨mid, .request 2 ghostRequest none false, requested⟩ 0 2 "ghost" := by
    have hport : ∀ c ∈ "8080".toList, c.isDigit := List.all_eq_true.mp (by decide)
    exact ⟨ghostRequest, none, false, _, rfl, .port hport, .line rfl rfl, by simp [hexchanges]⟩
  refine (hrefused _ ?_ 0 ask hasks hask hno _ ?_ 0 2 hrequests).1
  · exact Run.trail_cons hasked _ ▸ List.mem_cons_self
  · exact Run.trail_cons hrequested _ ▸ List.mem_cons_self

end Router

end WakeRouter
