import WakeRouter.Proofs.Router.Exchanges
import WakeRouter.Proofs.Router.Waiting

/-!
# What requests are told about their machines

A request that waits for its machine is told an address or an error, in one step of the manager,
and goes on in the same step.  `Router.WaitChange` lists what a step can do to a request that
waits.  On the way there records are made, and enter and leave wakes, but none is used.
-/

namespace WakeRouter

namespace Manager

variable {m next : Manager}

/-- Records are made, and enter and leave wakes; none is used, and nothing else about them
changes. -/
structure KeepsActivity (m next : Manager) : Prop where
  kept : ∀ {key r}, m.records.find? key = some r → ∃ r', next.records.find? key = some r' ∧
    r.SameUse r' ∧ (r' = r ∨ r.EntersWake r' ∨ ∃ result, r.LeavesWake result r')
  made : ∀ {key r'}, m.records.find? key = none → next.records.find? key = some r' →
    r'.lastActivity = m.now ∧ r'.state ≠ .waking ∧ r'.wake? = none

theorem records_of_poll {c : CallerId} (hstep : m.step (.poll c) = some next) :
    next.records = m.records := by
  cases move_of_step hstep <;> rfl

theorem records_of_engage {c : CallerId} (hstep : m.step (.engage c) = some next)
    {caller : Caller} (hcaller : m.callers.find? c = some caller) {r : Record}
    (hrecord : m.records.find? caller.key = some r) (hstate : r.state = .running) :
    next.records = m.records := by
  cases move_of_step hstep with
  | refuse | direct | join => rfl
  | begin hwants =>
      obtain rfl := Option.some.inj (hcaller.symm.trans hwants.caller_eq)
      obtain rfl := Option.some.inj (hrecord.symm.trans hwants.record_eq)
      exact absurd hstate hwants.asleep

/-- A waiting caller is told an error, or the address that its record has. -/
theorem answer_of_verdict (hm : m.Consistent) {c : CallerId} {caller : Caller} {w : Wait}
    {a : Answer} (hcaller : m.callers.find? c = some caller) (hphase : caller.phase = .waiting w)
    (hverdict : m.verdict? caller w = some a) :
    (∃ cause, a = .error cause) ∨
      ∃ r, m.records.find? caller.key = some r ∧ a = .address r.address := by
  unfold verdict? at hverdict
  split at hverdict
  next outcome houtcome =>
    obtain rfl := Option.some.inj hverdict
    cases outcome with
    | failed cause => exact .inl ⟨_, rfl⟩
    | ready address =>
        obtain ⟨wake, hwake, hpublished⟩ := Option.bind_eq_some_iff.mp houtcome
        obtain ⟨wake', hwake', hkey⟩ := hm.callers.awaited hcaller hphase
        obtain rfl := Option.some.inj (hwake.symm.trans hwake')
        obtain ⟨r, hr, _, haddress⟩ := hm.wakes.target hwake
        exact .inr ⟨r, hkey ▸ hr, congrArg Answer.address (haddress address hpublished)⟩
  next =>
    split at hverdict
    · exact .inl ⟨_, (Option.some.inj hverdict).symm⟩
    split at hverdict
    · exact .inl ⟨_, (Option.some.inj hverdict).symm⟩
    split at hverdict
    · exact .inl ⟨_, (Option.some.inj hverdict).symm⟩
    · cases hverdict

/-- Who wants an address and is told anything is told an error, or the address of its record, and
then its step does nothing to the records. -/
theorem answer_of_step (hm : m.Consistent) {e : Event} (hstep : m.step e = some next)
    {c : CallerId} {caller caller' : Caller} {timeout : Duration} {a : Answer}
    (hcaller : m.callers.find? c = some caller) (hpending : caller.isPending)
    (hpurpose : caller.purpose = .ensure timeout) (hnext : next.callers.find? c = some caller')
    (hanswer : caller'.answer? = some a) :
    (∃ cause, a = .error cause) ∨
      next.records = m.records ∧
        ∃ r, m.records.find? caller.key = some r ∧ a = .address r.address := by
  have hmove := callerMove_of_step hstep c
  rw [hcaller, hnext] at hmove
  have hphase := Caller.answer?_eq_some_iff.mp hanswer
  have hopen : ∀ {old : Caller}, old.isPending → old.phase ≠ .answered a := by
    intro old hold hphase
    simp [Caller.isPending, hphase] at hold
  cases hmove with
  | kept => exact absurd hphase (hopen hpending)
  | undescribed | refused => exact .inl ⟨_, (CallerPhase.answered.inj hphase).symm⟩
  | described nodes =>
      rw [hpurpose] at hphase
      exact absurd hphase (reception_ensure_ne_answered _ _ timeout a)
  | direct _ hrecord hstate =>
      obtain rfl := CallerPhase.answered.inj hphase
      exact .inr ⟨records_of_engage hstep hcaller hrecord hstate, _, hrecord, rfl⟩
  | hears hwaits hverdict =>
      obtain rfl := CallerPhase.answered.inj hphase
      exact (answer_of_verdict hm hcaller hwaits hverdict).imp_right fun hserved =>
        ⟨records_of_poll hstep, hserved⟩
  | cancelled => exact absurd hphase (hopen hpending)
  | waits | leaves => cases hphase

end Manager

namespace Router

variable {r next : Router} {e : Event} {x y : ExchangeId}

/-- In the step the caller of the request is told the answer, by the manager that is then `m`. -/
inductive Returns (t : Run.Transition Router Event) (x : ExchangeId) (m : Manager) (a : Answer) :
    Prop
  | told {exchange : Exchange} {c : CallerId} {caller : Caller} {timeout : Duration}
      {heard : Manager.Event} (hexchange : t.before.exchanges[x]? = some exchange)
      (hphase : exchange.phase = .ensuring c) (hevent : t.event = .upkeep (.manager heard))
      (hstep : t.before.manager.step heard = some m)
      (hcaller : m.callers.find? c = some caller) (hkey : caller.key = exchange.key)
      (hpurpose : caller.purpose = .ensure timeout) (hanswer : caller.answer? = some a) :
      Returns t x m a

theorem Returns.ensuring {t : Run.Transition Router Event} {m : Manager} {a : Answer}
    (hreturns : Returns t x m a) : ∃ waiting c, t.before.exchanges[x]? = some waiting ∧
      waiting.phase = .ensuring c := by
  obtain ⟨hexchange, hphase⟩ := hreturns
  exact ⟨_, _, hexchange, hphase⟩

theorem Returns.unique {t : Run.Transition Router Event} {m m' : Manager} {a a' : Answer}
    (hreturns : Returns t x m a) (hreturns' : Returns t x m' a') : m' = m ∧ a' = a := by
  obtain ⟨hexchange, hphase, hevent, hstep, hcaller, -, -, hanswer⟩ := hreturns
  obtain ⟨hexchange', hphase', hevent', hstep', hcaller', -, -, hanswer'⟩ := hreturns'
  obtain rfl := Option.some.inj (hexchange.symm.trans hexchange')
  obtain rfl := ExchangePhase.ensuring.inj (hphase.symm.trans hphase')
  have hheard := hevent.symm.trans hevent'
  simp only [Event.upkeep.injEq, Upkeep.Event.manager.injEq] at hheard
  subst hheard
  obtain rfl := Option.some.inj (hstep.symm.trans hstep')
  obtain rfl := Option.some.inj (hcaller.symm.trans hcaller')
  exact ⟨rfl, Option.some.inj (hanswer'.symm.trans hanswer)⟩

theorem not_returns_of_event (hother : ∀ heard, e ≠ .upkeep (.manager heard)) (m : Manager)
    (a : Answer) : ¬Returns ⟨r, e, next⟩ x m a := by
  rintro ⟨_, _, hevent⟩
  exact hother _ hevent

theorem not_returns_of_pending {heard : Manager.Event} {m' : Manager}
    (hstep : r.manager.step heard = some m') {exchange : Exchange} {c : CallerId}
    (hexchange : r.exchanges[x]? = some exchange) (hphase : exchange.phase = .ensuring c)
    {caller : Caller} (hcaller : m'.callers.find? c = some caller) (hpending : caller.isPending)
    (m : Manager) (a : Answer) : ¬Returns ⟨r, .upkeep (.manager heard), next⟩ x m a := by
  rintro ⟨hexchange', hphase', hevent, hstep', hcaller', -, -, hanswer⟩
  obtain rfl := Option.some.inj (hexchange.symm.trans hexchange')
  obtain rfl := ExchangePhase.ensuring.inj (hphase.symm.trans hphase')
  obtain rfl : heard = _ := by simpa using hevent
  obtain rfl := Option.some.inj (hstep.symm.trans hstep')
  obtain rfl := Option.some.inj (hcaller.symm.trans hcaller')
  simp [Caller.isPending, Caller.answer?_eq_some_iff.mp hanswer] at hpending

/-- What a step can do to a request that waits for its machine with that caller. -/
inductive WaitChange (r : Router) (x : ExchangeId) (exchange : Exchange) (c : CallerId)
    (e : Event) (next : Router) : Prop
  | waits (hnothing : ∀ m a, ¬Returns ⟨r, e, next⟩ x m a)
      (hmanager : ∀ heard, e = .upkeep (.manager heard) → subject? heard = some c →
        r.manager.step heard = some next.manager)
      (hexchange : next.exchanges[x]? = some exchange)
  | gone (hevent : e = .dropRequest x) (hnothing : ∀ m a, ¬Returns ⟨r, e, next⟩ x m a)
      (hexchange : next.exchanges[x]? = some { exchange with phase := .dropped })
  | refused {m : Manager} {cause : ManagerError}
      (hreturns : Returns ⟨r, e, next⟩ x m (.error cause)) (hmanager : next.manager = m)
      (hexchange : next.exchanges[x]? =
        some { exchange with phase := .refused (.ofError exchange.key cause) })
  | served {m : Manager} {record : Record}
      (hreturns : Returns ⟨r, e, next⟩ x m (.address record.address)) (hnow : m.now = r.now)
      (hrecords : m.records = r.manager.records)
      (hrecord : m.records.find? exchange.key = some record)
      (hmanager : next.manager = m.touch exchange.key)
      (hexchange : next.exchanges[x]? =
        some { exchange with phase := exchange.forward r.port record.address })

theorem waitChange_of_other {exchange : Exchange} {c : CallerId}
    (hother : ∀ heard, e ≠ .upkeep (.manager heard))
    (hexchange : next.exchanges[x]? = some exchange) : r.WaitChange x exchange c e next :=
  .waits (not_returns_of_event hother) (fun heard hevent => absurd hevent (hother heard)) hexchange

theorem getElem?_withPhase_of_waiting {exchange other : Exchange} {phase : ExchangePhase}
    {c : CallerId} (hexchange : r.exchanges[x]? = some exchange)
    (hphase : exchange.phase = .ensuring c) (hmoved : r.exchanges[y]? = some other)
    (hpast : other.phase ≠ .ensuring c) :
    (withPhase r.exchanges y phase)[x]? = some exchange := by
  have hne : x ≠ y := by
    rintro rfl
    obtain rfl := Option.some.inj (hexchange.symm.trans hmoved)
    exact hpast hphase
  rw [getElem?_withPhase, if_neg hne, hexchange]

theorem waitChange_dispatch (hr : r.Known) {exchange : Exchange} {c : CallerId}
    (hexchange : r.exchanges[x]? = some exchange) (hphase : exchange.phase = .ensuring c)
    {heard : Manager.Event} {m : Manager} (hheard : r.manager.step heard = some m)
    (hnow : m.now = r.now) {caller' : Caller} {a : Answer}
    (hcaller' : m.callers.find? c = some caller') (hanswer : caller'.answer? = some a) :
    r.WaitChange x exchange c (.upkeep (.manager heard))
      ((r.withManager m).dispatch x exchange a) := by
  obtain ⟨_, caller, timeout, hcaller, hkey, hpurpose⟩ := hr.sound.ensuring hexchange hphase
  obtain ⟨old, hold, hpending⟩ := hr.pending x exchange c hexchange hphase
  obtain rfl := Option.some.inj (hcaller.symm.trans hold)
  obtain ⟨later, hlater, hkey', hpurpose'⟩ := Manager.find?_caller_of_step hheard hcaller
  obtain rfl := Option.some.inj (hcaller'.symm.trans hlater)
  have hreturns : ∀ next, Returns ⟨r, .upkeep (.manager heard), next⟩ x m a := fun _ =>
    .told hexchange hphase rfl hheard hcaller' (hkey'.trans hkey) (hpurpose'.trans hpurpose) hanswer
  have hmoved : ∀ phase, (withPhase r.exchanges x phase)[x]? =
      some { exchange with phase := phase } := by
    intro phase
    rw [getElem?_withPhase, if_pos rfl, hexchange]
    rfl
  rcases Manager.answer_of_step hr.reachable.consistent hheard hcaller hpending hpurpose hcaller'
    hanswer with ⟨cause, rfl⟩ | ⟨hrecords, record, hrecord, rfl⟩
  · exact .refused (hreturns _) rfl (hmoved _)
  · rw [hkey, ← hrecords] at hrecord
    exact .served (hreturns _) hnow hrecords hrecord rfl (hmoved _)

theorem waitChange_heard (hr : r.Known) {exchange : Exchange} {c c' : CallerId}
    (hexchange : r.exchanges[x]? = some exchange) (hphase : exchange.phase = .ensuring c)
    {heard : Manager.Event} {m : Manager} (hheard : r.manager.step heard = some m)
    (hsubject : subject? heard = some c') :
    r.WaitChange x exchange c (.upkeep (.manager heard)) ((r.withManager m).attend c') := by
  have hstays : heard ≠ .leave c := by
    rintro rfl
    cases hsubject
  obtain ⟨caller, hcaller, hpending⟩ := hr.pending x exchange c hexchange hphase
  obtain ⟨caller', hcaller', hwaits⟩ := Manager.pending_of_step hheard hcaller hpending hstays
  have hattended := attended (r.withManager m) c'
  generalize (r.withManager m).attend c' = next at hattended
  have hnothing : caller'.isPending → ∀ m a,
      ¬Returns ⟨r, .upkeep (.manager heard), next⟩ x m a := fun hpending =>
    not_returns_of_pending hheard hexchange hphase hcaller' hpending
  have hown : next.manager = m → ∀ heard',
      Event.upkeep (.manager heard) = .upkeep (.manager heard') → subject? heard' = some c →
      r.manager.step heard' = some next.manager := by
    rintro hmanager heard' hsame -
    obtain rfl : heard = heard' := by simpa using hsame
    rw [hheard, hmanager]
  cases hattended with
  | aside hidle =>
      refine .waits (hnothing (hwaits.resolve_right ?_)) (hown rfl) hexchange
      rintro ⟨hc, hanswered⟩
      obtain rfl := Option.some.inj (hsubject.symm.trans hc)
      rcases hidle with hnone | hnobody
      · rw [show (r.withManager m).manager = m from rfl, hcaller'] at hnone
        exact hanswered hnone
      · have howns : (r.withManager m).owns c' := owns_of_ensuring hexchange hphase
        rw [hnobody] at howns
        cases howns
  | @dispatched y other a hanswer hother hmoved =>
      by_cases hc : c = c'
      · subst hc
        obtain rfl := hr.sound.distinct hexchange hphase hother hmoved
        obtain rfl := Option.some.inj (hexchange.symm.trans hother)
        rw [show (r.withManager m).manager = m from rfl, hcaller'] at hanswer
        have hnow := now_eq_of_subject hsubject hheard
        exact waitChange_dispatch hr hexchange hphase hheard hnow hcaller' hanswer
      · have hpast : other.phase ≠ .ensuring c := fun hsame =>
          hc (ExchangePhase.ensuring.inj (hsame.symm.trans hmoved))
        obtain ⟨phase, _, hexchanges, _⟩ := exists_dispatch (r.withManager m) y other a
        refine .waits (hnothing (hwaits.resolve_right ?_)) ?_ ?_
        · rintro ⟨hsame, _⟩
          exact hc (Option.some.inj (hsame.symm.trans hsubject))
        · intro heard' hevent hsame
          obtain rfl : heard = heard' := by simpa using hevent
          exact absurd (Option.some.inj (hsame.symm.trans hsubject)) hc
        · rw [hexchanges]
          exact getElem?_withPhase_of_waiting hexchange hphase hother hpast
  | told _ hexchanges =>
      refine .waits (hnothing (hwaits.resolve_right ?_)) (hown rfl) hexchange
      rintro ⟨hc, _⟩
      obtain rfl := Option.some.inj (hsubject.symm.trans hc)
      exact hexchanges exchange (List.mem_of_getElem? hexchange) hphase

theorem waitChange_unheard (hr : r.Known) {exchange : Exchange} {c : CallerId}
    (hexchange : r.exchanges[x]? = some exchange) (hphase : exchange.phase = .ensuring c)
    {heard : Manager.Event} {m : Manager} (hheard : r.manager.step heard = some m)
    (hsubject : subject? heard = none)
    (hfree : ∀ c, withdrawn? heard = some c → r.owns c = false) :
    r.WaitChange x exchange c (.upkeep (.manager heard)) (r.withManager m) := by
  have hstays : heard ≠ .leave c := by
    rintro rfl
    have howns : r.owns c := owns_of_ensuring hexchange hphase
    rw [hfree c rfl] at howns
    cases howns
  obtain ⟨caller, hcaller, hpending⟩ := hr.pending x exchange c hexchange hphase
  obtain ⟨caller', hcaller', hpending' | ⟨hsame, _⟩⟩ :=
    Manager.pending_of_step hheard hcaller hpending hstays
  · refine .waits (not_returns_of_pending hheard hexchange hphase hcaller' hpending') ?_ hexchange
    intro heard' hevent hsame
    obtain rfl : heard = heard' := by simpa using hevent
    cases hsame.symm.trans hsubject
  · cases hsame.symm.trans hsubject

theorem exchanges_ask (hr : r.Known) {c : CallerId} (hfresh : r.manager.callers.find? c = none)
    (method : String) (uri : Http.Uri) : (r.ask c method uri).exchanges = r.exchanges := by
  cases hquestion : Ask.question? method uri with
  | error verdict => rw [ask_of_error hquestion]
  | ok domain =>
      rw [ask_of_ok hquestion]
      have hattended := attended (r.withQuestion c method domain) c
      generalize (r.withQuestion c method domain).attend c = next at hattended
      cases hattended with
      | aside | told => rfl
      | dispatched _ hother hensuring =>
          exact absurd rfl (hr.sound.ne_of_fresh hfresh hother hensuring)

theorem waitChange_of_step (hr : r.Known) (hstep : r.step e = some next) {exchange : Exchange}
    {c : CallerId} (hexchange : r.exchanges[x]? = some exchange)
    (hphase : exchange.phase = .ensuring c) : r.WaitChange x exchange c e next := by
  have hx := (List.getElem?_eq_some_iff.mp hexchange).1
  cases move_of_step hstep with
  | heard hheard hsubject => exact waitChange_heard hr hexchange hphase hheard hsubject
  | unheard hheard hsubject hfree =>
      exact waitChange_unheard hr hexchange hphase hheard hsubject hfree
  | watched hother => exact waitChange_of_other (by simpa using hother) hexchange
  | shutDown | expire | dropAsk => exact waitChange_of_other (by simp) hexchange
  | request =>
      refine waitChange_of_other (by simp) ?_
      unfold Router.request
      split <;> exact (List.getElem?_append_left hx).trans hexchange
  | replied hother hforwarded | hangUp hother hforwarded =>
      refine waitChange_of_other (by simp) ?_
      exact getElem?_withPhase_of_waiting hexchange hphase hother (by simp [hforwarded])
  | close hother htunnelling =>
      refine waitChange_of_other (by simp) ?_
      exact getElem?_withPhase_of_waiting hexchange hphase hother (by simp [htunnelling])
  | @abandon y other c' hother hensuring =>
      by_cases hne : x = y
      · subst hne
        refine .gone rfl (not_returns_of_event (by simp)) ?_
        show (withPhase r.exchanges x .dropped)[x]? = _
        rw [getElem?_withPhase, if_pos rfl, hexchange]
        rfl
      · refine waitChange_of_other (by simp) ?_
        show (withPhase r.exchanges y .dropped)[x]? = _
        rw [getElem?_withPhase, if_neg hne, hexchange]
  | ask hfresh =>
      refine waitChange_of_other (by simp) ?_
      rwa [exchanges_ask hr hfresh]

end Router

end WakeRouter
