import WakeRouter.Proofs.Manager.Cache

/-!
# Keys without a machine

Whether a key has a machine is settled when its record is made.  Whoever looks the key up
afterwards is told so, and a caller that wants an address can only be refused; nobody asks the
control plane for it.
-/

namespace WakeRouter.Manager

/-- What a caller that looks a key up may have been told. -/
inductive LooksUp (m : Manager) (key : String) : CallerPhase → Prop
  | describing : LooksUp m key .describing
  | left : LooksUp m key .left
  | failed (cause : ManagerError) : LooksUp m key (.answered (.error cause))
  | shown {s : Snapshot} {r : Record} (hrecord : m.records.find? key = some r)
      (hsame : s.state = .notFound ↔ r.state = .notFound) :
      LooksUp m key (.answered (.record s))

/-- What a caller has been told about machines is true. -/
structure Told (m : Manager) (caller : Caller) : Prop where
  looked : caller.purpose = .lookup → m.LooksUp caller.key caller.phase
  refused : ∀ {cause : ManagerError}, caller.phase = .answered (.error cause) →
    cause.isNotFound → m.state? caller.key = some .notFound

/-- The caller wants the address of a key without a machine, and nothing lies before it but to
be refused. -/
structure Hopeless (m : Manager) (c : CallerId) (key : String) : Prop where
  idle : m.wakes.find? c = none
  absent : m.state? key = some .notFound
  waits : ∃ caller timeout, m.callers.find? c = some caller ∧ caller.key = key ∧
    caller.purpose = .ensure timeout ∧ (caller.phase = .found ∨
      caller.phase = .answered (.error (.notFound key)) ∨ caller.phase = .left)

variable {m next : Manager}

/-! ## Records -/

theorem find?_of_step (hm : m.WakesHeld) {event : Event} (hstep : m.step event = some next)
    {key : String} {r : Record} (hr : m.records.find? key = some r) :
    ∃ r', next.records.find? key = some r' ∧ (r'.state = .notFound ↔ r.state = .notFound) := by
  have hchange := recordChange_of_step hm hstep key
  rw [hr] at hchange
  obtain ⟨r', hr', _⟩ := hchange.some_of_some
  rw [hr'] at hchange
  refine ⟨r', hr', ?_⟩
  by_cases hsame : r.state = r'.state
  · rw [hsame]
  · have hturn := hchange.mayTurn hsame
    cases hold : r.state <;> cases hnew : r'.state <;> simp_all [Lifecycle.mayTurn]

theorem find?_of_reaches (hm : m.Consistent) (hreaches : m.Reaches next) {key : String}
    {r : Record} (hr : m.records.find? key = some r) :
    ∃ r', next.records.find? key = some r' ∧ (r'.state = .notFound ↔ r.state = .notFound) := by
  refine (hm.invariant (P := fun n => ∃ r', n.records.find? key = some r' ∧
    (r'.state = .notFound ↔ r.state = .notFound)) ?_ hreaches ⟨r, hr, Iff.rfl⟩).2
  rintro n event n' hn ⟨r', hr', hsame⟩ _ hstep
  obtain ⟨r'', hr'', hsame'⟩ := find?_of_step hn.wakes hstep hr'
  exact ⟨r'', hr'', hsame'.trans hsame⟩

theorem notFound_of_reaches (hm : m.Consistent) (hreaches : m.Reaches next) {key : String}
    (hstate : m.state? key = some .notFound) : next.state? key = some .notFound := by
  obtain ⟨r, hr, hnone⟩ := state?_eq_some_iff.mp hstate
  obtain ⟨r', hr', hsame⟩ := find?_of_reaches hm hreaches hr
  exact state?_eq_some_iff.mpr ⟨r', hr', hsame.mpr hnone⟩

/-! ## What callers are told -/

theorem looksUp_reception (m : Manager) (key : String) :
    m.LooksUp key (m.reception key .lookup) := by
  unfold reception
  cases hr : m.records.find? key with
  | none => exact .describing
  | some r => exact .shown hr Iff.rfl

theorem LooksUp.step (hm : m.WakesHeld) {event : Event} (hstep : m.step event = some next)
    {key : String} {phase : CallerPhase} (hlooks : m.LooksUp key phase) :
    next.LooksUp key phase := by
  cases hlooks with
  | describing => exact .describing
  | left => exact .left
  | failed cause => exact .failed cause
  | shown hr hsame =>
      obtain ⟨r', hr', hsame'⟩ := find?_of_step hm hstep hr
      exact .shown hr' (hsame.trans hsame'.symm)

theorem not_isNotFound_of_verdict {caller : Caller} {w : Wait} {cause : ManagerError}
    (hverdict : m.verdict? caller w = some (.error cause)) : cause.isNotFound = false := by
  unfold verdict? at hverdict
  split at hverdict
  next outcome _ =>
    cases outcome with
    | ready => cases hverdict
    | failed =>
        cases hverdict
        rfl
  next =>
    split at hverdict
    · cases hverdict
      rfl
    split at hverdict
    · cases hverdict
      rfl
    split at hverdict
    · cases hverdict
      rfl
    · cases hverdict

theorem reception_ne_error (m : Manager) (key : String) (purpose : Purpose)
    (cause : ManagerError) : m.reception key purpose ≠ .answered (.error cause) := by
  unfold reception
  cases m.records.find? key <;> cases purpose <;> simp

theorem looksUp_of_step (hm : m.WakesHeld)
    (htold : ∀ {c caller}, m.callers.find? c = some caller → m.Told caller) {event : Event}
    (hstep : m.step event = some next) {c : CallerId} {caller : Caller}
    (hcaller : next.callers.find? c = some caller) (hpurpose : caller.purpose = .lookup) :
    next.LooksUp caller.key caller.phase := by
  have hmove := callerMove_of_step hstep c
  rw [hcaller] at hmove
  generalize hbefore : m.callers.find? c = before at hmove
  have hlooks : ∀ {old}, before = some old → old.purpose = .lookup →
      m.LooksUp old.key old.phase := by
    rintro old rfl hlookup
    exact (htold hbefore).looked hlookup
  cases hmove with
  | kept => exact (hlooks rfl hpurpose).step hm hstep
  | looks key => exact (looksUp_reception m key).step hm hstep
  | comes | waits => simp_all
  | undescribed => exact .failed _
  | @described old nodes =>
      have hrecords : next.records = (m.discover old.key nodes).records := by
        cases move_of_step hstep with
        | described hold =>
            rw [hbefore, Option.some.injEq] at hold
            rw [hold]
            rfl
      have hlooks := looksUp_reception (m.discover old.key nodes) old.key
      rw [show old.purpose = .lookup from hpurpose]
      generalize (m.discover old.key nodes).reception old.key .lookup = phase at hlooks
      cases hlooks with
      | describing => exact .describing
      | left => exact .left
      | failed cause => exact .failed cause
      | shown hr hsame => exact .shown (hrecords ▸ hr) hsame
  | refused hfound | direct hfound =>
      have hnever := hlooks rfl hpurpose
      rw [hfound] at hnever
      cases hnever
  | hears hwaiting =>
      have hnever := hlooks rfl hpurpose
      rw [hwaiting] at hnever
      cases hnever
  | cancelled => exact (hlooks rfl hpurpose).step hm hstep
  | leaves => exact .left

theorem told_of_step (hm : m.WakesHeld) {ts : List Transition} (hknown : LooksKnown ts m)
    (htold : ∀ {c caller}, m.callers.find? c = some caller → m.Told caller) {event : Event}
    (hstep : m.step event = some next) {c : CallerId} {caller : Caller}
    (hcaller : next.callers.find? c = some caller) : next.Told caller := by
  refine ⟨looksUp_of_step hm htold hstep hcaller, ?_⟩
  intro cause hphase hcause
  have hmove := callerMove_of_step hstep c
  rw [hcaller] at hmove
  generalize hbefore : m.callers.find? c = before at hmove
  cases hmove with
  | kept | cancelled =>
      exact notFound_of_step hm hstep ((htold hbefore).refused hphase hcause)
  | looks key => exact absurd hphase (reception_ne_error m key .lookup cause)
  | comes key timeout => exact absurd hphase (reception_ne_error m key (.ensure timeout) cause)
  | described => exact absurd hphase (reception_ne_error _ _ _ cause)
  | undescribed =>
      cases hphase
      cases hcause
  | @refused old hfound hrecord =>
      obtain ⟨r, hr⟩ := hknown.found hbefore hfound
      exact notFound_of_step hm hstep (state?_eq_some_iff.mpr ⟨r, hr, hrecord r hr⟩)
  | direct | waits | leaves => cases hphase
  | hears hwaiting hverdict =>
      cases hphase
      rw [not_isNotFound_of_verdict hverdict] at hcause
      cases hcause

theorem told_of_run {deadline : Duration} {es : List Event}
    (hrun : (start deadline).run es = some m) {c : CallerId} {caller : Caller}
    (hcaller : m.callers.find? c = some caller) : m.Told caller := by
  have hboth := (consistent_start deadline).trail_induction
    (P := fun ts n => StepsKnown ts n ∧
      ∀ {c caller}, n.callers.find? c = some caller → n.Told caller)
    (fun hn hboth hstep => ⟨hboth.1.step hn hstep,
      told_of_step hn.wakes hboth.1.looks hboth.2 hstep⟩)
    ⟨stepsKnown_start deadline, by simp [start]⟩ hrun
  exact hboth.2 hcaller

/-! ## Callers without hope -/

theorem hopeless_of_ensure (hm : m.CallersPlaced) {c : CallerId} {key : String}
    {timeout : Duration} {cancelled : Bool}
    (hstep : m.step (.ensure c key timeout cancelled) = some next)
    (hstate : m.state? key = some .notFound) : next.Hopeless c key := by
  cases move_of_step hstep with
  | ensure hfresh =>
      obtain ⟨r, hr, _⟩ := state?_eq_some_iff.mp hstate
      refine ⟨hm.wakes_eq_none_of_fresh hfresh, hstate, _, timeout,
        (find?_callers_arrive hfresh c key _ _).trans (if_pos rfl), rfl, rfl, .inl ?_⟩
      simp [reception, hr]

theorem Hopeless.beginsNone {c : CallerId} {key : String} (hopeless : m.Hopeless c key) :
    m.BeginsNone c := by
  obtain ⟨hidle, habsent, caller, _, hcaller, rfl, _⟩ := hopeless
  exact ⟨hidle, caller, hcaller, .inr habsent⟩

theorem eq_of_engage {c : CallerId} {caller : Caller} (hcaller : m.callers.find? c = some caller)
    (hstate : m.state? caller.key = some .notFound) (hstep : m.step (.engage c) = some next) :
    next = m.setPhase c (.answered (.error (.notFound caller.key))) := by
  obtain ⟨r, hr, hnone⟩ := state?_eq_some_iff.mp hstate
  cases move_of_step hstep with
  | refuse hcaller' => rw [Option.some.inj (hcaller.symm.trans hcaller')]
  | direct hcaller' _ _ hr' hrunning =>
      obtain rfl := Option.some.inj (hcaller.symm.trans hcaller')
      obtain rfl := Option.some.inj (hr.symm.trans hr')
      rw [hnone] at hrunning
      cases hrunning
  | join hwants | begin hwants =>
      obtain rfl := Option.some.inj (hcaller.symm.trans hwants.caller_eq)
      obtain rfl := Option.some.inj (hr.symm.trans hwants.record_eq)
      exact absurd hnone hwants.known

theorem Hopeless.step (hm : m.Consistent) {c : CallerId} {key : String}
    (hopeless : m.Hopeless c key) {event : Event} (hstep : m.step event = some next) :
    next.Hopeless c key := by
  refine ⟨(hopeless.beginsNone.step hm hstep).1, notFound_of_step hm.wakes hstep hopeless.absent,
    ?_⟩
  obtain ⟨_, habsent, caller, timeout, hcaller, rfl, hpurpose, hphase⟩ := hopeless
  have hmove := callerMove_of_step hstep c
  rw [hcaller] at hmove
  generalize hafter : next.callers.find? c = after at hmove
  cases hmove with
  | kept => exact ⟨caller, timeout, rfl, rfl, hpurpose, hphase⟩
  | undescribed _ hasks | described _ hasks => simp [hasks] at hphase
  | refused => exact ⟨_, timeout, rfl, rfl, hpurpose, .inr (.inl rfl)⟩
  | direct | waits =>
      have hnext := eq_of_engage hcaller habsent hstep
      rw [hnext, find?_callers_setPhase, if_pos rfl, hcaller] at hafter
      cases hafter
  | hears hwaiting => simp [hwaiting] at hphase
  | cancelled => exact ⟨_, timeout, rfl, rfl, hpurpose, hphase⟩
  | leaves => exact ⟨_, timeout, rfl, rfl, hpurpose, .inr (.inr rfl)⟩

theorem Hopeless.reaches (hm : m.Consistent) {c : CallerId} {key : String}
    (hopeless : m.Hopeless c key) (hreaches : m.Reaches next) : next.Hopeless c key :=
  (hm.invariant (P := fun n => n.Hopeless c key)
    (fun hn hopeless _ hstep => hopeless.step hn hstep) hreaches hopeless).2

/-- When it looks, the caller is refused. -/
theorem Hopeless.step_engage {c : CallerId} {key : String} (hopeless : m.Hopeless c key)
    {caller : Caller} (hcaller : m.callers.find? c = some caller)
    (hpending : caller.isPending) :
    m.step (.engage c) = some (m.setPhase c (.answered (.error (.notFound key)))) := by
  obtain ⟨_, habsent, caller', timeout, hcaller', rfl, hpurpose, hphase⟩ := hopeless
  obtain rfl := Option.some.inj (hcaller.symm.trans hcaller')
  rcases hphase with hfound | hdone | hdone
  · refine (Move.refuse hcaller hfound hpurpose fun r hr => ?_).step_eq
    obtain ⟨r', hr', hnone⟩ := state?_eq_some_iff.mp habsent
    rwa [Option.some.inj (hr.symm.trans hr')]
  · simp [Caller.isPending, hdone] at hpending
  · simp [Caller.isPending, hdone] at hpending

theorem Hopeless.answer_eq {c : CallerId} {key : String} (hopeless : m.Hopeless c key)
    {a : Answer} (hanswer : (m.callers.find? c).bind Caller.answer? = some a) :
    a = .error (.notFound key) := by
  obtain ⟨_, _, caller, _, hcaller, _, _, hphase⟩ := hopeless
  rw [hcaller, Option.bind_some] at hanswer
  rcases hphase with hphase | hphase | hphase
  · simp [Caller.answer?, hphase] at hanswer
  · simpa [Caller.answer?, hphase] using hanswer.symm
  · simp [Caller.answer?, hphase] at hanswer

/-! ## Calls -/

theorem find?_wakes_of_call {event : Event} {e : Episode} {handle : String}
    (hcall : m.call? event = some (.resume e handle)) : m.wakes.find? e ≠ none := by
  cases event with
  | resume e' =>
      obtain ⟨wake, hwake, hsame⟩ := Option.map_eq_some_iff.mp hcall
      cases hsame
      simp [hwake]
  | lookup | ensure => simp [call?] at hcall
  | elapse | described | engage | poll | cancel | leave | resumed | overrun | brokeDown | deliver
  | touch | markPaused => cases hcall

/-- Who makes a call is known from then on. -/
theorem find?_caller_of_call (hm : m.CallersPlaced) {event : Event}
    (hstep : m.step event = some next) {call : Call} (hcall : m.call? event = some call) :
    next.callers.find? call.caller ≠ none := by
  cases call with
  | describe c key =>
      obtain ⟨_, caller, hcaller, _⟩ := (call?_eq_describe_iff hstep).mp hcall
      have hcaller : next.callers.find? c = some caller := hcaller
      simp [Call.caller, hcaller]
  | resume e handle =>
      obtain ⟨wake, hwake⟩ := Option.ne_none_iff_exists'.mp (find?_wakes_of_call hcall)
      obtain ⟨caller, hcaller, _⟩ := hm.beginner hwake
      obtain ⟨caller', hcaller', _⟩ := find?_caller_of_step hstep hcaller
      simp [Call.caller, hcaller']

theorem Hopeless.caller_ne {c : CallerId} {key : String} (hopeless : m.Hopeless c key)
    {event : Event} (hstep : m.step event = some next) {call : Call}
    (hcall : m.call? event = some call) : call.caller ≠ c := by
  rintro rfl
  cases call with
  | describe c key' =>
      obtain ⟨_, _, caller, _, hcaller, _⟩ := hopeless
      have hfresh : m.callers.find? c = none := ((call?_eq_describe_iff hstep).mp hcall).fresh
      rw [show (Call.describe c key').caller = c from rfl, hfresh] at hcaller
      cases hcaller
  | resume e handle => exact find?_wakes_of_call hcall hopeless.idle

end WakeRouter.Manager
