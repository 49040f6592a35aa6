import WakeRouter.Proofs.Router.Outcomes

/-!
# Questions that look

A question that looks its domain up has a caller of its own, and the caller has not been told
anything yet.  `Router.LookChange` lists what a step can do to such a question.  Once the
question is over, nothing more happens to it or to its caller.
-/

namespace WakeRouter

namespace Manager

variable {m next : Manager}

/-- Who looks a key up has been told the record, or has the key described, or is gone. -/
theorem describing_of_lookup (hm : m.Reachable) {c : CallerId} {caller : Caller}
    (hcaller : m.callers.find? c = some caller) (hpurpose : caller.purpose = .lookup)
    (hpending : caller.isPending) : caller.phase = .describing := by
  have hlooks := (hm.told hcaller).looked hpurpose
  unfold Caller.isPending at hpending
  generalize caller.phase = phase at hlooks hpending
  cases hlooks with
  | describing => rfl
  | left | failed | shown => cases hpending

/-- What an event does that is about a caller who looks its key up. -/
inductive LookupMove (m : Manager) (c : CallerId) (caller : Caller) : Event → Manager → Prop
  | shown {nodes : List Node} {record : Record}
      (hrecord : record = (m.records.find? caller.key).getD (.ofNodes nodes m.now)) :
      LookupMove m c caller (.described c (.ok nodes))
        ((m.discover caller.key nodes).reply c (.record (record.snapshot m.now caller.key)))
  | failed (cause : ControlError) :
      LookupMove m c caller (.described c (.error cause))
        (m.reply c (.error (.transport caller.key cause)))
  | cancelled :
      LookupMove m c caller (.cancel c)
        { m with callers := m.callers.modify c fun caller => { caller with cancelled := true } }
  | left : LookupMove m c caller (.leave c) (m.setPhase c .left)

theorem lookupMove_of_step (hm : m.Reachable) {c : CallerId} {caller : Caller}
    (hcaller : m.callers.find? c = some caller) (hpurpose : caller.purpose = .lookup)
    {e : Event} (hevent : e.caller? = some c) (hstep : m.step e = some next) :
    m.LookupMove c caller e next := by
  have hphase := describing_of_lookup hm hcaller hpurpose (isPending_of_step hstep hcaller hevent)
  have hsame : ∀ {c' caller'}, some c' = some c → m.callers.find? c' = some caller' →
      c' = c ∧ caller' = caller := by
    rintro c' caller' ⟨⟩ hcaller'
    exact ⟨rfl, Option.some.inj (hcaller'.symm.trans hcaller)⟩
  cases move_of_step hstep with
  | lookup hfresh | ensure hfresh =>
      obtain rfl := Option.some.inj hevent
      cases hcaller.symm.trans hfresh
  | undescribed hfind =>
      obtain ⟨rfl, rfl⟩ := hsame hevent hfind
      exact .failed _
  | @described _ caller nodes hfind =>
      obtain ⟨rfl, rfl⟩ := hsame hevent hfind
      have hreception : (m.discover caller.key nodes).reception caller.key .lookup =
          .answered (.record (((m.records.find? caller.key).getD (.ofNodes nodes m.now)).snapshot
            m.now caller.key)) := by
        simp only [reception, find?_records_discover, if_pos]
        rfl
      rw [hpurpose, hreception]
      exact .shown rfl
  | refuse hfind hother | direct hfind hother | hear hfind hother | wait hfind hother =>
      obtain ⟨rfl, rfl⟩ := hsame hevent hfind
      cases hphase.symm.trans hother
  | join hwants | begin hwants =>
      obtain ⟨rfl, rfl⟩ := hsame hevent hwants.caller_eq
      cases hphase.symm.trans hwants.phase_eq
  | cancel hfind =>
      obtain ⟨rfl, rfl⟩ := hsame hevent hfind
      exact .cancelled
  | leave hfind =>
      obtain ⟨rfl, rfl⟩ := hsame hevent hfind
      exact .left
  | elapse | resume | resumed | overrun | brokeDown | deliver | touch | markPaused => cases hevent

variable {c : CallerId} {caller : Caller} {e : Event}

theorem LookupMove.wakes_eq (hmove : m.LookupMove c caller e next) : next.wakes = m.wakes := by
  cases hmove <;> rfl

theorem LookupMove.call?_eq (hmove : m.LookupMove c caller e next) : m.call? e = none := by
  cases hmove <;> rfl

/-- The record of the key may be made, and none is changed. -/
theorem LookupMove.records_eq (hmove : m.LookupMove c caller e next) :
    next.records = m.records ∨
      ∃ record, next.records = m.records.addNew caller.key record := by
  cases hmove with
  | @shown nodes => exact .inr ⟨.ofNodes nodes m.now, rfl⟩
  | failed | cancelled | left => exact .inl rfl

end Manager

theorem subject?_eq_caller? {heard : Manager.Event} {c : CallerId}
    (hsubject : Router.subject? heard = some c) : heard.caller? = some c := by
  cases heard with
  | described | engage | poll => exact hsubject
  | _ => cases hsubject

namespace Router

variable {r next : Router} {e : Event} {a : AskId} {ask : Ask} {c : CallerId}

/-! ## Questions from step to step -/

theorem callers_attend (r : Router) (c : CallerId) :
    (r.attend c).manager.callers = r.manager.callers := by
  have hattended := attended r c
  generalize r.attend c = next at hattended
  cases hattended with
  | aside | told => rfl
  | @dispatched x exchange answer =>
      obtain ⟨_, _, _, hcallers, _⟩ := exists_dispatch r x exchange answer
      exact hcallers

theorem ask_of_attend {c' : CallerId} (hask : r.asks[a]? = some ask)
    (hother : ∀ since, ask.phase ≠ .looking c' since) : (r.attend c').asks[a]? = some ask := by
  have hattended := attended r c'
  generalize r.attend c' = next at hattended
  cases hattended with
  | aside => exact hask
  | @dispatched x exchange answer =>
      obtain ⟨_, _, _, _, hasks⟩ := exists_dispatch r x exchange answer
      rw [hasks, hask]
  | @told b other since _ _ _ hlooking hphase =>
      have hne : b ≠ a := by
        rintro rfl
        obtain rfl := Option.some.inj (hask.symm.trans hlooking)
        exact hother since hphase
      exact (List.getElem?_modify_ne _ _ hne).trans hask

/-- What happens in the step is up to the question, or to its caller. -/
def Concerns (e : Event) (a : AskId) (c : CallerId) : Prop :=
  e = .expire a ∨ e = .dropAsk a ∨
    ∃ heard : Manager.Event, e = .upkeep (.manager heard) ∧ heard.caller? = some c

theorem ask_of_step (hstep : r.step e = some next) (hask : r.asks[a]? = some ask)
    (hother : ∀ c since, ask.phase = .looking c since →
      ¬Concerns e a c ∧ r.manager.callers.find? c ≠ none) : next.asks[a]? = some ask := by
  have ha := (List.getElem?_eq_some_iff.mp hask).1
  have hne : ∀ {b : AskId} {other : Ask} {c' : CallerId} {since : Instant},
      r.asks[b]? = some other → other.phase = .looking c' since →
      e = .expire b ∨ e = .dropAsk b → b ≠ a := by
    rintro b other c' since hlooking hphase hevent rfl
    obtain rfl := Option.some.inj (hask.symm.trans hlooking)
    refine (hother c' since hphase).1 ?_
    exact hevent.imp_right .inl
  cases move_of_step hstep with
  | @heard e m c' hheard hsubject =>
      refine ask_of_attend hask fun since hphase => (hother c' since hphase).1 ?_
      exact .inr (.inr ⟨e, rfl, subject?_eq_caller? hsubject⟩)
  | unheard | watched | replied | close | abandon | hangUp | shutDown => exact hask
  | request =>
      unfold Router.request
      split <;> exact hask
  | @ask c' method uri hfresh =>
      have hstays : ∀ new, (r.asks ++ [new])[a]? = some ask := fun new =>
        (List.getElem?_append_left ha).trans hask
      cases hquestion : Ask.question? method uri with
      | error verdict =>
          rw [ask_of_error hquestion]
          exact hstays _
      | ok domain =>
          rw [ask_of_ok hquestion]
          refine ask_of_attend (hstays _) fun since hphase => ?_
          exact (hother c' since hphase).2 hfresh
  | expire hlooking hphase =>
      exact (List.getElem?_modify_ne _ _ (hne hlooking hphase (.inl rfl))).trans hask
  | dropAsk hlooking hphase =>
      exact (List.getElem?_modify_ne _ _ (hne hlooking hphase (.inr rfl))).trans hask

theorem looking_of_attend {c' : CallerId} (hask : (r.attend c').asks[a]? = some ask)
    (hopen : ask.phase.isOpen) : r.asks[a]? = some ask := by
  have hattended := attended r c'
  generalize r.attend c' = next at hask hattended
  cases hattended with
  | aside => exact hask
  | @dispatched x exchange answer =>
      obtain ⟨_, _, _, _, hasks⟩ := exists_dispatch r x exchange answer
      rwa [hasks] at hask
  | @told b _ _ answer =>
      have hfewer : r.Fewer (r.setAsk b (.answered (.ofAnswer answer))) :=
        fewer_of_ask b rfl rfl rfl
      exact hfewer.asks hask hopen

/-- Who looks with the caller has done so before, or comes with it. -/
theorem looking_of_step (hstep : r.step e = some next) (hask : next.asks[a]? = some ask)
    {since : Instant} (hphase : ask.phase = .looking c since) :
    r.asks[a]? = some ask ∨ ∃ method uri, e = .ask c method uri := by
  have hopen : ask.phase.isOpen := by rw [hphase]; rfl
  cases move_of_step hstep with
  | @heard e m c' =>
      have hlooking : (r.withManager m).asks[a]? = some ask := looking_of_attend hask hopen
      exact .inl hlooking
  | unheard | watched | replied | close | abandon | hangUp | shutDown => exact .inl hask
  | request =>
      unfold Router.request at hask
      split at hask <;> exact .inl hask
  | @ask c' method uri =>
      cases hquestion : Ask.question? method uri with
      | error verdict =>
          rw [ask_of_error hquestion] at hask
          rcases getElem?_concat hask with hold | ⟨_, rfl⟩
          · exact .inl hold
          · cases hphase
      | ok domain =>
          rw [ask_of_ok hquestion] at hask
          rcases getElem?_concat (looking_of_attend hask hopen) with hold | ⟨_, rfl⟩
          · exact .inl hold
          · cases hphase
            exact .inr ⟨method, uri, rfl⟩
  | @expire b _ c' =>
      have hfewer : r.Fewer ((r.giveUp c').setAsk b (.answered .lookupFailed)) :=
        fewer_of_ask b rfl rfl rfl
      exact .inl (hfewer.asks hask hopen)
  | @dropAsk b _ c' =>
      have hfewer : r.Fewer ((r.giveUp c').setAsk b .dropped) := fewer_of_ask b rfl rfl rfl
      exact .inl (hfewer.asks hask hopen)

/-- Only a question that looks takes too long, or loses its client. -/
theorem isOpen_of_step (hstep : r.step e = some next) (hask : r.asks[a]? = some ask)
    (hevent : e = .expire a ∨ e = .dropAsk a) : ask.phase.isOpen := by
  rcases hevent with rfl | rfl
  · cases move_of_step hstep with
    | expire hlooking hphase =>
        obtain rfl := Option.some.inj (hask.symm.trans hlooking)
        rw [hphase]
        rfl
  · cases move_of_step hstep with
    | dropAsk hlooking hphase =>
        obtain rfl := Option.some.inj (hask.symm.trans hlooking)
        rw [hphase]
        rfl

/-! ## Questions that wait for their lookup -/

/-- The question about the domain looks with a caller that nobody else looks with. -/
structure Looks (r : Router) (a : AskId) (method : String) (c : CallerId) (since : Instant)
    (domain : String) : Prop where
  ask_eq : r.asks[a]? = some ⟨method, .looking c since⟩
  caller : ∃ caller, r.manager.callers.find? c = some caller ∧ caller.key = domain ∧
    caller.purpose = .lookup ∧ caller.isPending
  alone : ∀ {b : AskId} {other : Ask} {since' : Instant}, r.asks[b]? = some other →
    other.phase = .looking c since' → b = a

/-- The question about the domain is done with, and so is its caller. -/
structure Over (r : Router) (a : AskId) (ask : Ask) (c : CallerId) (domain : String) : Prop where
  ask_eq : r.asks[a]? = some ask
  closed : ask.phase.isOpen = false
  caller : ∃ caller, r.manager.callers.find? c = some caller ∧ caller.key = domain ∧
    caller.purpose = .lookup ∧ caller.isPending = false

variable {method domain : String} {since : Instant}

/-- A caller is spared what does not concern its question. -/
theorem Looks.spares (hlooks : r.Looks a method c since domain) (hr : r.Known)
    (haside : ¬Concerns e a c) (hstep : r.step e = some next) :
    r.manager.Spares next.manager c := by
  have hheardOf : ∀ {heard : Manager.Event} {m : Manager}, e = .upkeep (.manager heard) →
      r.manager.step heard = some m → r.manager.Spares m c := by
    intro heard m hevent hheard
    apply Manager.spares_of_step hheard
    · rintro rfl
      exact haside (.inr (.inr ⟨_, hevent, rfl⟩))
    · intro hsubject
      exact haside (.inr (.inr ⟨_, hevent, subject?_eq_caller? hsubject⟩))
  cases move_of_step hstep with
  | @heard e m c' hheard =>
      have hattended := callers_attend (r.withManager m) c'
      exact (hheardOf rfl hheard).trans (Manager.spares_of_callers hattended)
  | unheard hheard => exact hheardOf rfl hheard
  | watched hother hu => exact spares_upkeep hother hu c
  | @request c' request client? upgradable hfresh =>
      unfold Router.request
      split
      · exact Manager.spares_of_callers rfl
      · exact Manager.spares_of_step (Manager.Move.ensure hfresh).step_eq (by simp)
          (by simp [subject?])
  | replied | hangUp | close => exact Manager.spares_of_callers rfl
  | abandon hexchange hphase =>
      exact spares_giveUp r (hr.sound.ne_of_looking hlooks.ask_eq rfl hexchange hphase).symm
  | @ask c' method' uri hfresh =>
      cases hquestion : Ask.question? method' uri with
      | error verdict =>
          rw [ask_of_error hquestion]
          exact Manager.spares_of_callers rfl
      | ok other =>
          rw [ask_of_ok hquestion]
          have hcame : r.manager.Spares (r.withQuestion c' method' other).manager c :=
            Manager.spares_of_step (Manager.Move.lookup hfresh).step_eq (by simp)
              (by simp [subject?])
          exact hcame.trans (Manager.spares_of_callers (callers_attend _ c'))
  | @expire b other c' since' hlooking hphase =>
      apply spares_giveUp r
      rintro rfl
      obtain rfl := hlooks.alone hlooking hphase
      exact haside (.inl rfl)
  | @dropAsk b other c' since' hlooking hphase =>
      apply spares_giveUp r
      rintro rfl
      obtain rfl := hlooks.alone hlooking hphase
      exact haside (.inr (.inl rfl))
  | shutDown => exact spares_shutDown r c

theorem Looks.waits (hlooks : r.Looks a method c since domain) (hr : r.Known)
    (haside : ¬Concerns e a c) (hstep : r.step e = some next) :
    next.Looks a method c since domain := by
  obtain ⟨caller, hcaller, hkey, hpurpose, hpending⟩ := hlooks.caller
  obtain ⟨caller', hcaller', hkey', hpurpose'⟩ :=
    Manager.find?_caller_of_reaches (reaches_of_step hstep) hcaller
  obtain ⟨later, hlater, hpending'⟩ := hlooks.spares hr haside hstep caller hcaller hpending
  obtain rfl := Option.some.inj (hcaller'.symm.trans hlater)
  constructor
  case ask_eq =>
    refine ask_of_step hstep hlooks.ask_eq ?_
    rintro c' since' ⟨⟩
    exact ⟨haside, by simp [hcaller]⟩
  case caller =>
    exact ⟨caller', hcaller', hkey'.trans hkey, hpurpose'.trans hpurpose, hpending'⟩
  case alone =>
    intro b other since' hother hphase
    rcases looking_of_step hstep hother hphase with hold | ⟨method', uri, rfl⟩
    · exact hlooks.alone hold hphase
    · cases move_of_step hstep with
      | ask hfresh => cases hcaller.symm.trans hfresh

/-- In the step the caller is shown a record. -/
structure Shows (t : Run.Transition Router Event) (c : CallerId) (s : Snapshot) : Prop where
  unanswered : (t.before.manager.callers.find? c).bind Caller.answer? = none
  answered : (t.after.manager.callers.find? c).bind Caller.answer? = some (.record s)

/-- Nothing more concerns a question that is over, and its caller is shown nothing. -/
theorem Over.step (hover : r.Over a ask c domain) (hstep : r.step e = some next) :
    next.Over a ask c domain ∧ ¬Concerns e a c ∧ ∀ s, ¬Shows ⟨r, e, next⟩ c s := by
  obtain ⟨hask, hclosed, caller, hcaller, hkey, hpurpose, hpending⟩ := hover
  have hnever : ∀ c' since, ask.phase ≠ .looking c' since := by
    intro c' since hphase
    simp [hphase, AskPhase.isOpen] at hclosed
  have hstays := ask_of_step hstep hask fun c' since hphase => absurd hphase (hnever c' since)
  obtain ⟨es, hreaches⟩ := (reaches_of_step hstep).exists_run
  have hsettled := Manager.settled_of_run hreaches hcaller hpending
  refine ⟨⟨hstays, hclosed, caller, hsettled, hkey, hpurpose, hpending⟩, ?_, ?_⟩
  · rintro (hevent | hevent | ⟨heard, rfl, hevent⟩)
    · cases hclosed.symm.trans (isOpen_of_step hstep hask (.inl hevent))
    · cases hclosed.symm.trans (isOpen_of_step hstep hask (.inr hevent))
    · cases move_of_step hstep with
      | heard hheard | unheard hheard =>
          have hopen := Manager.isPending_of_step hheard hcaller hevent
          rw [hpending] at hopen
          cases hopen
      | watched hother => exact hother heard rfl
  · rintro s ⟨hunanswered, hanswered⟩
    rw [hcaller] at hunanswered
    rw [hsettled] at hanswered
    cases hunanswered.symm.trans hanswered

/-! ## How a lookup ends -/

/-- The caller is shown the record of the domain as it is after the step. -/
def Finds (t : Run.Transition Router Event) (domain : String) (s : Snapshot) : Prop :=
  ∃ record, t.after.manager.records.find? domain = some record ∧
    s = { taken := t.after.now, key := domain, handle := record.handle,
          address := record.address, state := record.state,
          lastActivity := record.lastActivity, wakeError? := record.wakeError? }

/-- What a step can do to a question that looks. -/
inductive LookChange (r : Router) (a : AskId) (method : String) (c : CallerId) (since : Instant)
    (domain : String) (e : Event) (next : Router) : Prop
  | waits (haside : ¬Concerns e a c) (hlooks : next.Looks a method c since domain)
  | told {nodes : List Node} {s : Snapshot}
      (hevent : e = .upkeep (.manager (.described c (.ok nodes))))
      (hover : next.Over a ⟨method, .answered (.ofAnswer (.record s))⟩ c domain)
      (hshows : Shows ⟨r, e, next⟩ c s) (hfinds : Finds ⟨r, e, next⟩ domain s)
  | failed {phase : AskPhase}
      (hevent : ∀ nodes, e ≠ .upkeep (.manager (.described c (.ok nodes))))
      (hphase : phase = .answered .lookupFailed ∨ phase = .dropped ∧ e = .dropAsk a)
      (hover : next.Over a ⟨method, phase⟩ c domain)
      (hrecords : next.manager.records = r.manager.records)
      (hnothing : ∀ s, ¬Shows ⟨r, e, next⟩ c s)

/-- A question whose caller has an answer has it, too. -/
theorem attend_of_looking {answer : Answer}
    (hexchanges : ∀ {x : ExchangeId} {exchange : Exchange}, r.exchanges[x]? = some exchange →
      exchange.phase ≠ .ensuring c) (hask : r.asks[a]? = some ⟨method, .looking c since⟩)
    (halone : ∀ {b : AskId} {other : Ask} {since' : Instant}, r.asks[b]? = some other →
      other.phase = .looking c since' → b = a)
    (hanswer : (r.manager.callers.find? c).bind Caller.answer? = some answer) :
    r.attend c = r.setAsk a (.answered (.ofAnswer answer)) := by
  have hattended := attended r c
  generalize r.attend c = next at hattended
  cases hattended with
  | aside hnothing =>
      rcases hnothing with hsilent | hnobody
      · cases hanswer.symm.trans hsilent
      · cases (owns_of_looking hask rfl).symm.trans hnobody
  | dispatched _ hexchange hphase => exact absurd hphase (hexchanges hexchange)
  | told hanswer' _ hlooking hphase =>
      obtain rfl := halone hlooking hphase
      obtain rfl := Option.some.inj (hanswer.symm.trans hanswer')
      rfl

theorem getElem?_setAsk (r : Router) {phase phase' : AskPhase}
    (hask : r.asks[a]? = some ⟨method, phase⟩) :
    (r.setAsk a phase').asks[a]? = some ⟨method, phase'⟩ := by
  show (List.modify _ _ _)[a]? = _
  rw [List.getElem?_modify_eq, hask]
  rfl

/-- A question whose client or whose patience has gone takes its caller back. -/
theorem Looks.givenUp (hlooks : r.Looks a method c since domain) (phase : AskPhase)
    (hclosed : phase.isOpen = false) :
    ((r.giveUp c).setAsk a phase).Over a ⟨method, phase⟩ c domain ∧
      ∀ s, ¬Shows ⟨r, e, (r.giveUp c).setAsk a phase⟩ c s := by
  obtain ⟨caller, hcaller, hkey, hpurpose, hpending⟩ := hlooks.caller
  have hgiven : r.giveUp c = r.withManager (r.manager.setPhase c .left) := by
    rw [giveUp, (Manager.Move.leave hcaller hpending).step_eq, Option.getD_some]
  have hleft : ((r.giveUp c).setAsk a phase).manager.callers.find? c =
      some { caller with phase := .left } := by
    rw [hgiven]
    show (r.manager.setPhase c .left).callers.find? c = _
    rw [Manager.find?_callers_setPhase, if_pos rfl, hcaller]
    rfl
  constructor
  · exact ⟨getElem?_setAsk (r.giveUp c) hlooks.ask_eq, hclosed, _, hleft, hkey, hpurpose, rfl⟩
  · rintro s ⟨-, hanswered⟩
    rw [hleft] at hanswered
    cases hanswered

/-- When its caller is told something, so is the question. -/
theorem Looks.replied (hlooks : r.Looks a method c since domain) (hr : r.Known) {m : Manager}
    (hcallers : m.callers = r.manager.callers) (answer : Answer) :
    ∃ next, (r.withManager (m.reply c answer)).attend c = next ∧
      next.Over a ⟨method, .answered (.ofAnswer answer)⟩ c domain ∧
      next.manager = m.reply c answer ∧
      (next.manager.callers.find? c).bind Caller.answer? = some answer := by
  obtain ⟨caller, hcaller, hkey, hpurpose, -⟩ := hlooks.caller
  have hreplied : (m.reply c answer).callers.find? c =
      some { caller with phase := .answered answer } := by
    rw [Manager.reply, Manager.find?_callers_setPhase, if_pos rfl, hcallers, hcaller]
    rfl
  have hanswer : ((m.reply c answer).callers.find? c).bind Caller.answer? = some answer := by
    rw [hreplied]
    rfl
  refine ⟨_, attend_of_looking ?_ hlooks.ask_eq hlooks.alone hanswer,
    ⟨getElem?_setAsk _ hlooks.ask_eq, rfl, _, hreplied, hkey, hpurpose, rfl⟩, rfl, hanswer⟩
  intro x exchange hexchange hphase
  exact hr.sound.ne_of_looking hlooks.ask_eq rfl hexchange hphase rfl

theorem Looks.heard (hlooks : r.Looks a method c since domain) (hr : r.Known)
    {heard : Manager.Event} (hevent : heard.caller? = some c)
    (hstep : r.step (.upkeep (.manager heard)) = some next) :
    r.LookChange a method c since domain (.upkeep (.manager heard)) next := by
  obtain ⟨caller, hcaller, rfl, hpurpose, hpending⟩ := hlooks.caller
  cases move_of_step hstep with
  | @heard _ m c' hheard hsubject =>
      obtain rfl : c' = c := by simpa [subject?_eq_caller? hsubject] using hevent
      cases Manager.lookupMove_of_step hr.reachable hcaller hpurpose hevent hheard with
      | @shown nodes record hrecord =>
          have hdescribing := Manager.describing_of_lookup hr.reachable hcaller hpurpose hpending
          obtain ⟨next, hnext, hover, hmanager, hanswer⟩ := hlooks.replied hr
            (m := r.manager.discover caller.key nodes) rfl
            (.record (record.snapshot r.manager.now caller.key))
          rw [hnext]
          refine .told rfl hover ⟨by simp [hcaller, Caller.answer?, hdescribing], hanswer⟩
            ⟨record, ?_, ?_⟩
          · rw [hmanager, Manager.reply, Manager.records_setPhase, Manager.find?_records_discover,
              if_pos rfl, hrecord]
          · rw [now, hmanager]
            rfl
      | failed cause =>
          obtain ⟨next, hnext, hover, hmanager, hanswer⟩ :=
            hlooks.replied hr (m := r.manager) rfl (.error (.transport caller.key cause))
          rw [hnext]
          refine .failed (by simp) (.inl rfl) hover (by rw [hmanager]; rfl) ?_
          rintro s ⟨-, hshown⟩
          cases hanswer.symm.trans hshown
      | cancelled | left => cases hsubject
  | unheard hheard hsubject hfree =>
      have howned : withdrawn? heard ≠ some c := fun hwithdrawn => by
        cases (owns_of_looking hlooks.ask_eq rfl).symm.trans (hfree c hwithdrawn)
      cases Manager.lookupMove_of_step hr.reachable hcaller hpurpose hevent hheard with
      | shown | failed => cases hsubject
      | cancelled | left => exact absurd rfl howned
  | watched hother => exact absurd rfl (hother heard)

theorem lookChange_of_step (hr : r.Known) (hlooks : r.Looks a method c since domain)
    (hstep : r.step e = some next) : r.LookChange a method c since domain e next := by
  by_cases hconcerns : Concerns e a c
  · rcases id hconcerns with rfl | rfl | ⟨heard, rfl, hevent⟩
    · cases move_of_step hstep with
      | expire hask hphase =>
          obtain rfl := Option.some.inj (hlooks.ask_eq.symm.trans hask)
          cases hphase
          obtain ⟨hover, hnothing⟩ := hlooks.givenUp (e := .expire a) (.answered .lookupFailed) rfl
          exact .failed (by simp) (.inl rfl) hover (records_giveUp r c) hnothing
    · cases move_of_step hstep with
      | dropAsk hask hphase =>
          obtain rfl := Option.some.inj (hlooks.ask_eq.symm.trans hask)
          cases hphase
          obtain ⟨hover, hnothing⟩ := hlooks.givenUp (e := .dropAsk a) .dropped rfl
          exact .failed (by simp) (.inr ⟨rfl, rfl⟩) hover (records_giveUp r c) hnothing
    · exact hlooks.heard hr hevent hstep
  · exact .waits hconcerns (hlooks.waits hr hconcerns hstep)

/-! ## How a lookup begins -/

theorem alone_withQuestion (hr : r.Known) (hfresh : r.manager.callers.find? c = none)
    {b : AskId} {other : Ask} {since : Instant}
    (hother : (r.withQuestion c method domain).asks[b]? = some other)
    (hphase : other.phase = .looking c since) : b = r.asks.length := by
  rcases getElem?_concat hother with hold | ⟨hb, -⟩
  · obtain ⟨caller, hcaller, -⟩ := hr.sound.looking hold hphase
    cases hfresh.symm.trans hcaller
  · exact hb

theorem find?_caller_ask (hfresh : r.manager.callers.find? c = none) {uri : Http.Uri}
    (hquestion : Ask.question? method uri = .ok domain) :
    (r.ask c method uri).manager.callers.find? c ≠ none := by
  rw [ask_of_ok hquestion, callers_attend, find?_caller_withQuestion hfresh]
  simp

/-- A domain without a record has to be looked up. -/
theorem ask_of_unknown (hr : r.Known) (hfresh : r.manager.callers.find? c = none)
    {uri : Http.Uri} (hquestion : Ask.question? method uri = .ok domain)
    (hnone : r.manager.records.find? domain = none) :
    r.ask c method uri = r.withQuestion c method domain ∧
      (r.ask c method uri).Looks r.asks.length method c r.now domain := by
  have hcaller := find?_caller_withQuestion hfresh method domain
  have hreception : r.manager.reception domain .lookup = .describing := by
    simp [Manager.reception, hnone]
  rw [hreception] at hcaller
  have hasked : r.ask c method uri = r.withQuestion c method domain := by
    rw [ask_of_ok hquestion, attend, hcaller]
    rfl
  rw [hasked]
  refine ⟨rfl, List.getElem?_concat_length, ⟨_, hcaller, rfl, rfl, rfl⟩, ?_⟩
  exact alone_withQuestion hr hfresh

/-- A domain with a record is looked up at once. -/
theorem ask_of_known (hr : r.Known) (hfresh : r.manager.callers.find? c = none) {uri : Http.Uri}
    (hquestion : Ask.question? method uri = .ok domain) {record : Record}
    (hrecord : r.manager.records.find? domain = some record) :
    (r.ask c method uri).upkeep = (r.withQuestion c method domain).upkeep ∧
      (r.ask c method uri).Over r.asks.length
        ⟨method, .answered (.ofAnswer (.record (record.snapshot r.now domain)))⟩ c domain ∧
      Shows ⟨r, .ask c method uri, r.ask c method uri⟩ c (record.snapshot r.now domain) := by
  have hcaller := find?_caller_withQuestion hfresh method domain
  have hreception : r.manager.reception domain .lookup =
      .answered (.record (record.snapshot r.now domain)) := by
    simp [Manager.reception, hrecord, Router.now]
  rw [hreception] at hcaller
  have hanswer : ((r.withQuestion c method domain).manager.callers.find? c).bind Caller.answer? =
      some (.record (record.snapshot r.now domain)) := by
    rw [hcaller]
    rfl
  have hlooking : (r.withQuestion c method domain).asks[r.asks.length]? =
      some ⟨method, .looking c r.now⟩ := List.getElem?_concat_length
  have hasked := attend_of_looking (r := r.withQuestion c method domain)
    (fun hexchange hphase => hr.sound.ne_of_fresh hfresh hexchange hphase rfl) hlooking
    (alone_withQuestion hr hfresh) hanswer
  rw [ask_of_ok hquestion, hasked]
  exact ⟨rfl, ⟨getElem?_setAsk _ hlooking, rfl, _, hcaller, rfl, rfl, rfl⟩,
    ⟨by simp [hfresh], hanswer⟩⟩

end Router

end WakeRouter
