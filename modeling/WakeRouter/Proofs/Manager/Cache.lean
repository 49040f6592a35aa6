import WakeRouter.Proofs.Manager.Answers
import WakeRouter.Proofs.Manager.Coalescing

/-!
# What is cached

The records are what is known without asking the control plane.  A caller has a key described
only when it comes and the key has no record, and it begins a wake only when it looks again and
finds a machine that can be woken.  The keys that have records are those about which the control
plane said something to a caller that was still there; a look that came to nothing has changed no
record.
-/

namespace WakeRouter.Manager

/-! ## Looks and calls -/

/-- The caller that comes in the event, and the key that it comes for. -/
def Event.arrival? : Event → Option (CallerId × String)
  | .lookup c key | .ensure c key _ _ => some (c, key)
  | _ => none

/-- The caller that the event is about. -/
def Event.caller? : Event → Option CallerId
  | .lookup c _ | .ensure c _ _ _ | .described c _ | .engage c | .poll c | .cancel c
  | .leave c => some c
  | _ => none

/-- The caller that made the call. -/
def Call.caller : Call → CallerId
  | .describe c _ => c
  | .resume e _ => e

/-- In the step the caller looks for the record of its key, and finds it in the state. -/
inductive Transition.Finds (t : Transition) (c : CallerId) : Option Lifecycle → Prop
  | comes {key : String} {s? : Option Lifecycle} (hevent : t.event.arrival? = some (c, key))
      (hstate : t.before.state? key = s?) : Finds t c s?
  | engage {caller : Caller} {s? : Option Lifecycle} (hevent : t.event = .engage c)
      (hcaller : t.before.callers.find? c = some caller)
      (hstate : t.before.state? caller.key = s?) : Finds t c s?

/-- In the step the caller comes and begins to wait for the key to be described. -/
structure Transition.Asks (t : Transition) (c : CallerId) (key : String) : Prop where
  fresh : t.before.callers.find? c = none
  waits : ∃ caller, t.after.callers.find? c = some caller ∧ caller.key = key ∧
    caller.phase = .describing

/-- In the step the control plane fails to describe the key of the caller, or the caller goes
away before it has. -/
structure Transition.Fails (t : Transition) (c : CallerId) : Prop where
  describing : ∃ caller, t.before.callers.find? c = some caller ∧ caller.phase = .describing
  event_eq : t.event = .leave c ∨ ∃ cause, t.event = .described c (.error cause)

variable {m next : Manager}

theorem call?_eq_describe_iff {event : Event} (hstep : m.step event = some next) {c : CallerId}
    {key : String} :
    m.call? event = some (.describe c key) ↔ Transition.Asks ⟨m, event, next⟩ c key := by
  constructor
  · intro hcall
    have hasks : ∀ purpose cancelled, m.callers.find? c = none → m.records.find? key = none →
        next = m.arrive c key purpose cancelled → Transition.Asks ⟨m, event, next⟩ c key := by
      rintro purpose cancelled hfresh hnone rfl
      refine ⟨hfresh, _, (find?_callers_arrive hfresh c key purpose cancelled).trans (if_pos rfl),
        rfl, ?_⟩
      simp [reception, hnone]
    cases move_of_step hstep with
    | lookup hfresh | ensure hfresh =>
        simp only [call?, Option.isNone_iff_eq_none, Option.ite_none_right_eq_some,
          Option.some.injEq, Call.describe.injEq] at hcall
        obtain ⟨hnone, rfl, rfl⟩ := hcall
        exact hasks _ _ hfresh hnone rfl
    | resume hwake _ => simp [call?, hwake] at hcall
    | elapse | undescribed | described | refuse | direct | join | begin | hear | wait | cancel
    | leave | resumed | overrun | brokeDown | deliver | touch | markPaused => cases hcall
  · rintro ⟨hfresh, caller, hcaller, rfl, hphase⟩
    have hmove := callerMove_of_step hstep c
    rw [show m.callers.find? c = none from hfresh,
      show next.callers.find? c = some caller from hcaller] at hmove
    cases hmove with
    | looks key =>
        have hasks : m.reception key .lookup = .describing := hphase
        simp [call?, reception_eq_describing hasks]
    | comes key timeout cancelled =>
        have hasks : m.reception key (.ensure timeout) = .describing := hphase
        simp [call?, reception_eq_describing hasks]

theorem Transition.Asks.arrival {t : Transition} {c : CallerId} {key : String}
    (hstep : t.before.step t.event = some t.after) (hasks : t.Asks c key) :
    t.event.arrival? = some (c, key) ∧ t.before.records.find? key = none := by
  obtain ⟨hfresh, caller, hcaller, rfl, hphase⟩ := hasks
  have hmove := callerMove_of_step hstep c
  rw [hfresh, hcaller] at hmove
  generalize t.event = event at hmove
  cases hmove with
  | looks key =>
      have hasks : t.before.reception key .lookup = .describing := hphase
      exact ⟨rfl, reception_eq_describing hasks⟩
  | comes key timeout cancelled =>
      have hasks : t.before.reception key (.ensure timeout) = .describing := hphase
      exact ⟨rfl, reception_eq_describing hasks⟩

theorem mem_calls_iff {first : Manager} {es : List Event} {call : Call} :
    call ∈ first.calls es ↔ ∃ t ∈ first.trail es, t.before.call? t.event = some call := by
  simp [calls]

/-! ## Callers that begin no wake -/

/-- The caller has begun no wake, and will begin none. -/
def BeginsNone (m : Manager) (c : CallerId) : Prop :=
  m.wakes.find? c = none ∧ ∃ caller, m.callers.find? c = some caller ∧
    (caller.isPending = false ∨ m.state? caller.key = some .notFound)

theorem notFound_of_step (hm : m.WakesHeld) {event : Event} (hstep : m.step event = some next)
    {key : String} (hstate : m.state? key = some .notFound) :
    next.state? key = some .notFound := by
  obtain ⟨r, hr, hnot⟩ := state?_eq_some_iff.mp hstate
  have hchange := recordChange_of_step hm hstep key
  rw [hr] at hchange
  obtain ⟨r', hr', _, _, hstays⟩ := hchange.some_of_some
  exact state?_eq_some_iff.mpr ⟨r', hr', hstays hnot⟩

theorem BeginsNone.step (hm : m.Consistent) {c : CallerId} (hnone : m.BeginsNone c) {event : Event}
    (hstep : m.step event = some next) : next.BeginsNone c := by
  obtain ⟨hwake, caller, hcaller, hbarred⟩ := hnone
  constructor
  · have hwants : ∀ {caller' r}, ¬m.WantsWake c caller' r := by
      intro caller' r hwants
      obtain rfl : caller = caller' := Option.some.inj (hcaller.symm.trans hwants.caller_eq)
      rcases hbarred with hdone | hstate
      · simp [Caller.isPending, hwants.phase_eq] at hdone
      · simp only [state?, hwants.record_eq, Option.map_some, Option.some.injEq] at hstate
        exact hwants.known hstate
    have hchange := wakeChange_of_step hm hstep c
    rw [hwake] at hchange
    generalize hafter : next.wakes.find? c = after at hchange
    cases hchange with
    | kept => rfl
    | begun =>
        cases move_of_step hstep with
        | refuse | direct | join =>
            rw [wakes_setPhase, hwake] at hafter
            cases hafter
        | begin hwants' => exact (hwants hwants').elim
  · rcases hbarred with hdone | hstate
    · exact ⟨caller, settled_of_step hstep hcaller hdone, .inl hdone⟩
    · obtain ⟨caller', hcaller', hkey, _⟩ := find?_caller_of_step hstep hcaller
      exact ⟨caller', hcaller', .inr (hkey ▸ notFound_of_step hm.wakes hstep hstate)⟩

theorem CallersPlaced.wakes_eq_none_of_fresh (hm : m.CallersPlaced) {c : CallerId}
    (hfresh : m.callers.find? c = none) : m.wakes.find? c = none := by
  cases hwake : m.wakes.find? c with
  | none => rfl
  | some wake =>
      obtain ⟨caller, hcaller, _⟩ := hm.beginner hwake
      rw [hfresh] at hcaller
      cases hcaller

theorem beginsNone_of_finds (hm : m.Consistent) {event : Event} (hstep : m.step event = some next)
    {c : CallerId} {s : Lifecycle} (hfinds : Transition.Finds ⟨m, event, next⟩ c (some s))
    (hs : s = .notFound ∨ s = .running ∧ event = .engage c) : next.BeginsNone c := by
  cases hfinds with
  | @comes key _ hevent hfound =>
      have hevent : event.arrival? = some (c, key) := hevent
      have hnot : m.state? key = some .notFound := by
        rcases hs with rfl | ⟨_, rfl⟩
        · exact hfound
        · cases hevent
      have harrived : ∀ purpose cancelled, m.callers.find? c = none →
          (m.arrive c key purpose cancelled).BeginsNone c := fun purpose cancelled hfresh =>
        ⟨hm.callers.wakes_eq_none_of_fresh hfresh, _,
          (find?_callers_arrive hfresh c key purpose cancelled).trans (if_pos rfl), .inr hnot⟩
      cases move_of_step hstep with
      | lookup hfresh | ensure hfresh =>
          cases hevent
          exact harrived _ _ hfresh
      | elapse | undescribed | described | refuse | direct | join | begin | hear | wait | cancel
      | leave | resume | resumed | overrun | brokeDown | deliver | touch | markPaused =>
          cases hevent
  | @engage caller _ hevent hcaller hfound =>
      obtain rfl : event = .engage c := hevent
      obtain ⟨r, hr, hstate⟩ := state?_eq_some_iff.mp hfound
      have hs : r.state = .notFound ∨ r.state = .running := by
        rw [hstate]
        exact hs.imp_right And.left
      have hanswered : ∀ a, m.wakes.find? c = none →
          (m.setPhase c (.answered a)).BeginsNone c := by
        intro a hwake
        refine ⟨hwake, { caller with phase := .answered a }, ?_, .inl rfl⟩
        rw [find?_callers_setPhase, if_pos rfl]
        exact congrArg (Option.map _) hcaller
      have hwants : ∀ {caller' r'}, ¬m.WantsWake c caller' r' := by
        intro caller' r' hwants
        obtain rfl : caller = caller' := Option.some.inj (hcaller.symm.trans hwants.caller_eq)
        obtain rfl : r = r' := Option.some.inj (hr.symm.trans hwants.record_eq)
        exact hs.elim hwants.known hwants.asleep
      cases move_of_step hstep with
      | refuse hcaller' hphase | direct hcaller' hphase =>
          exact hanswered _ (hm.callers.wakes_eq_none hcaller' fun hpast => hpast.2 hphase)
      | join hwants' => exact (hwants hwants').elim
      | begin hwants' => exact (hwants hwants').elim

/-- Whose record a wake begins for, it was found asleep. -/
theorem finds_of_entersWaking (hm : m.Consistent) {c : CallerId} {key : String}
    (hstep : m.step (.engage c) = some next)
    (henters : Transition.entersWaking key ⟨m, .engage c, next⟩) :
    ∃ s, Transition.Finds ⟨m, .engage c, next⟩ c (some s) ∧ (s = .unknown ∨ s = .paused) := by
  obtain ⟨hbefore, hafter⟩ := Transition.entersWaking_iff.mp henters
  have hfinds : ∀ {n caller r}, m.callers.find? c = some caller →
      m.records.find? caller.key = some r →
      Transition.Finds ⟨m, .engage c, n⟩ c (some r.state) := by
    intro n caller r hcaller hr
    exact .engage rfl hcaller (state?_eq_some_iff.mpr ⟨r, hr, rfl⟩)
  cases move_of_step hstep with
  | refuse | direct | join => exact absurd hafter hbefore
  | begin hwants _ hwake =>
      exact ⟨_, hfinds hwants.caller_eq hwants.record_eq, hwants.state hm.wakes hwake⟩

/-! ## Steps of one caller -/

theorem present_of_step {event : Event} (hstep : m.step event = some next) {c : CallerId}
    (hevent : event.caller? = some c) : next.callers.find? c ≠ none := by
  cases hcaller : m.callers.find? c with
  | some caller =>
      obtain ⟨caller', hcaller', _⟩ := find?_caller_of_step hstep hcaller
      simp [hcaller']
  | none =>
      cases event with
      | lookup | ensure =>
          obtain rfl := Option.some.inj hevent
          cases move_of_step hstep
          simp [find?_callers_arrive hcaller]
      | described | engage | poll | cancel | leave =>
          obtain rfl := Option.some.inj hevent
          simp [step, hcaller] at hstep
      | elapse | resume | resumed | overrun | brokeDown | deliver | touch | markPaused =>
          cases hevent

/-- Nothing more happens to a caller that has been answered or went away. -/
theorem isPending_of_step {event : Event} (hstep : m.step event = some next) {c : CallerId}
    {caller : Caller} (hcaller : m.callers.find? c = some caller)
    (hevent : event.caller? = some c) : caller.isPending := by
  have hsame : ∀ {c' caller'}, some c' = some c → m.callers.find? c' = some caller' →
      caller'.isPending → caller.isPending := by
    rintro c' caller' ⟨⟩ hcaller' hpending
    rwa [Option.some.inj (hcaller.symm.trans hcaller')]
  cases move_of_step hstep with
  | lookup hfresh | ensure hfresh =>
      obtain rfl := Option.some.inj hevent
      rw [hcaller] at hfresh
      cases hfresh
  | undescribed hfind hphase | described hfind hphase | refuse hfind hphase | direct hfind hphase
  | hear hfind hphase | wait hfind hphase =>
      exact hsame hevent hfind (by simp [Caller.isPending, hphase])
  | join hwants | begin hwants =>
      exact hsame hevent hwants.caller_eq (by simp [Caller.isPending, hwants.phase_eq])
  | cancel hfind hpending | leave hfind hpending => exact hsame hevent hfind hpending
  | elapse | resume | resumed | overrun | brokeDown | deliver | touch | markPaused => cases hevent

/-- A caller whose key is still being described has changed no record. -/
theorem records_of_describing {event : Event} (hstep : m.step event = some next) {c : CallerId}
    {caller : Caller} (hevent : event.caller? = some c)
    (hcaller : next.callers.find? c = some caller) (hphase : caller.phase = .describing) :
    next.records = m.records := by
  cases move_of_step hstep with
  | @described _ old nodes hfind _ =>
      obtain rfl := Option.some.inj hevent
      rw [find?_callers_setPhase, if_pos rfl, callers_discover, hfind] at hcaller
      obtain rfl := Option.some.inj hcaller
      have hnone := reception_eq_describing hphase
      rw [find?_records_discover, if_pos rfl] at hnone
      cases hnone
  | begin hwants =>
      obtain rfl := Option.some.inj hevent
      rw [find?_callers_setPhase, if_pos rfl, callers_beginWake, hwants.caller_eq] at hcaller
      obtain rfl := Option.some.inj hcaller
      cases hphase
  | lookup | ensure | undescribed | refuse | direct | join | hear | wait | cancel | leave => rfl
  | elapse | resume | resumed | overrun | brokeDown | deliver | touch | markPaused => cases hevent

theorem Transition.Fails.after {event : Event} {c : CallerId} (hstep : m.step event = some next)
    (hfails : Transition.Fails ⟨m, event, next⟩ c) :
    next.records = m.records ∧
      ∃ caller, next.callers.find? c = some caller ∧ caller.isPending = false := by
  obtain ⟨⟨caller, hcaller, hphase⟩, hevent⟩ := hfails
  have hdone : ∀ phase, (m.setPhase c phase).callers.find? c =
      some { caller with phase := phase } := by
    intro phase
    rw [find?_callers_setPhase, if_pos rfl]
    exact congrArg (Option.map _) hcaller
  rcases hevent with hevent | ⟨cause, hevent⟩
  · obtain rfl : event = .leave c := hevent
    cases move_of_step hstep with
    | leave => exact ⟨rfl, _, hdone _, rfl⟩
  · obtain rfl : event = .described c (.error cause) := hevent
    cases move_of_step hstep with
    | undescribed => exact ⟨rfl, _, hdone _, rfl⟩

/-! ## Runs -/

/-- Callers come once and are known from then on, and those whose key is being described, or
could not be described, have changed no record. -/
structure CallersKnown (ts : List Transition) (m : Manager) : Prop where
  known : ∀ {t c}, t ∈ ts → t.event.caller? = some c → m.callers.find? c ≠ none
  once : ∀ {s t c key key'}, s ∈ ts → t ∈ ts → s.event.arrival? = some (c, key) →
    t.event.arrival? = some (c, key') → s = t
  asked : ∀ {c caller}, m.callers.find? c = some caller → caller.phase = .describing →
    ∃ t ∈ ts, t.Asks c caller.key
  harmless : ∀ {c caller}, m.callers.find? c = some caller → caller.phase = .describing →
    ∀ t ∈ ts, t.event.caller? = some c → t.after.records = t.before.records
  failed : ∀ {t c}, t ∈ ts → t.Fails c →
    (∃ caller, m.callers.find? c = some caller ∧ caller.isPending = false) ∧
      ∀ s ∈ ts, s.event.caller? = some c → s.after.records = s.before.records

theorem caller?_of_arrival {event : Event} {c : CallerId} {key : String}
    (hevent : event.arrival? = some (c, key)) : event.caller? = some c := by
  cases event with
  | lookup | ensure =>
      cases hevent
      rfl
  | elapse | described | engage | poll | cancel | leave | resume | resumed | overrun
  | brokeDown | deliver | touch | markPaused => cases hevent

theorem fresh_of_arrival {event : Event} (hstep : m.step event = some next) {c : CallerId}
    {key : String} (hevent : event.arrival? = some (c, key)) : m.callers.find? c = none := by
  cases hcaller : m.callers.find? c with
  | none => rfl
  | some caller =>
      cases event with
      | lookup | ensure =>
          cases hevent
          simp [step, Table.has, hcaller] at hstep
      | elapse | described | engage | poll | cancel | leave | resume | resumed | overrun
      | brokeDown | deliver | touch | markPaused => cases hevent

/-- A caller whose key is being described was so before, or has just come. -/
theorem describing_of_step {event : Event} (hstep : m.step event = some next) {c : CallerId}
    {caller : Caller} (hcaller : next.callers.find? c = some caller)
    (hphase : caller.phase = .describing) :
    m.callers.find? c = none ∨ ∃ old, m.callers.find? c = some old ∧ old.key = caller.key ∧
      old.phase = .describing := by
  have hmove := callerMove_of_step hstep c
  rw [hcaller] at hmove
  generalize m.callers.find? c = before at hmove
  cases hmove with
  | kept => exact .inr ⟨caller, rfl, rfl, hphase⟩
  | looks | comes => exact .inl rfl
  | @described old nodes hold => exact .inr ⟨old, rfl, rfl, hold⟩
  | @cancelled old => exact .inr ⟨old, rfl, rfl, hphase⟩
  | undescribed | refused | direct | waits | hears | leaves => cases hphase

theorem CallersKnown.step {ts : List Transition} (hknown : CallersKnown ts m) {event : Event}
    (hstep : m.step event = some next) : CallersKnown (ts ++ [⟨m, event, next⟩]) next := by
  have hconcat : ∀ {t}, t ∈ ts ++ [⟨m, event, next⟩] → t ∈ ts ∨ t = ⟨m, event, next⟩ := by
    intro t ht
    simpa using ht
  constructor
  case known =>
    intro t c ht hevent
    rcases hconcat ht with ht | rfl
    · obtain ⟨caller, hcaller⟩ := Option.ne_none_iff_exists'.mp (hknown.known ht hevent)
      obtain ⟨caller', hcaller', _⟩ := find?_caller_of_step hstep hcaller
      simp [hcaller']
    · exact present_of_step hstep hevent
  case once =>
    intro s t c key key' hs ht hs' ht'
    rcases hconcat hs with hs | rfl <;> rcases hconcat ht with ht | rfl
    · exact hknown.once hs ht hs' ht'
    · exact absurd (fresh_of_arrival hstep ht') (hknown.known hs (caller?_of_arrival hs'))
    · exact absurd (fresh_of_arrival hstep hs') (hknown.known ht (caller?_of_arrival ht'))
    · rfl
  case asked =>
    intro c caller hcaller hphase
    rcases describing_of_step hstep hcaller hphase with hfresh | ⟨old, hold, hkey, hwaits⟩
    · exact ⟨⟨m, event, next⟩, by simp, hfresh, caller, hcaller, rfl, hphase⟩
    · obtain ⟨t, ht, hasks⟩ := hknown.asked hold hwaits
      exact ⟨t, List.mem_append_left _ ht, hkey ▸ hasks⟩
  case harmless =>
    intro c caller hcaller hphase t ht hevent
    rcases hconcat ht with ht | rfl
    · rcases describing_of_step hstep hcaller hphase with hfresh | ⟨old, hold, _, hwaits⟩
      · exact absurd hfresh (hknown.known ht hevent)
      · exact hknown.harmless hold hwaits t ht hevent
    · exact records_of_describing hstep hevent hcaller hphase
  case failed =>
    intro t c ht hfails
    rcases hconcat ht with ht | rfl
    · obtain ⟨⟨caller, hcaller, hdone⟩, hsame⟩ := hknown.failed ht hfails
      refine ⟨⟨caller, settled_of_step hstep hcaller hdone, hdone⟩, fun s hs hevent => ?_⟩
      rcases hconcat hs with hs | rfl
      · exact hsame s hs hevent
      · have hpending := isPending_of_step hstep hcaller hevent
        rw [hdone] at hpending
        cases hpending
    · obtain ⟨hrecords, hdone⟩ := hfails.after hstep
      obtain ⟨caller, hcaller, hphase⟩ := hfails.describing
      refine ⟨hdone, fun s hs hevent => ?_⟩
      rcases hconcat hs with hs | rfl
      · exact hknown.harmless hcaller hphase s hs hevent
      · exact hrecords

/-- In the step the control plane describes the key to the caller, which is still there. -/
structure Transition.Describes (t : Transition) (c : CallerId) (key : String) : Prop where
  event_eq : ∃ nodes, t.event = .described c (.ok nodes)
  waits : ∃ caller, t.before.callers.find? c = some caller ∧ caller.key = key ∧
    caller.phase = .describing

/-- The keys with records are those that were described, to callers that had asked. -/
structure KeysKnown (ts : List Transition) (m : Manager) : Prop where
  cached : ∀ {t c key}, t ∈ ts → t.Describes c key → m.records.find? key ≠ none
  described : ∀ {key}, m.records.find? key ≠ none →
    ∃ t ∈ ts, ∃ c, t.Describes c key ∧ ∃ s ∈ ts, s.Asks c key

theorem KeysKnown.step {ts : List Transition} (hm : m.WakesHeld) (hcallers : CallersKnown ts m)
    (hknown : KeysKnown ts m) {event : Event} (hstep : m.step event = some next) :
    KeysKnown (ts ++ [⟨m, event, next⟩]) next := by
  constructor
  case cached =>
    intro t c key ht hdescribes
    rcases List.mem_append.mp ht with ht | ht
    · obtain ⟨r, hr⟩ := Option.ne_none_iff_exists'.mp (hknown.cached ht hdescribes)
      have hchange := recordChange_of_step hm hstep key
      rw [hr] at hchange
      obtain ⟨r', hr', _⟩ := hchange.some_of_some
      simp [hr']
    · obtain rfl := List.mem_singleton.mp ht
      obtain ⟨⟨nodes, hevent⟩, caller, hcaller, rfl, _⟩ := hdescribes
      obtain rfl : event = .described c (.ok nodes) := hevent
      obtain ⟨r, _, hr, _⟩ := find?_of_described hcaller hstep
      have hr : next.records.find? caller.key = some r := hr
      simp [hr]
  case described =>
    intro key hnext
    obtain ⟨r', hr'⟩ := Option.ne_none_iff_exists'.mp hnext
    have hchange := recordChange_of_step hm hstep key
    rw [hr'] at hchange
    cases hbefore : m.records.find? key with
    | some r =>
        have hpresent : m.records.find? key ≠ none := by simp [hbefore]
        obtain ⟨t, ht, c, hdescribes, s, hs, hasks⟩ := hknown.described hpresent
        exact ⟨t, List.mem_append_left _ ht, c, hdescribes, s, List.mem_append_left _ hs, hasks⟩
    | none =>
        rw [hbefore] at hchange
        obtain ⟨c, caller, nodes, rfl, hcaller, rfl, _⟩ := hchange.of_none
        have hphase : caller.phase = .describing := by
          cases move_of_step hstep with
          | described hcaller' hphase =>
              rwa [Option.some.inj (hcaller.symm.trans hcaller')]
        obtain ⟨s, hs, hasks⟩ := hcallers.asked hcaller hphase
        exact ⟨⟨m, _, next⟩, by simp, c, ⟨⟨nodes, rfl⟩, caller, hcaller, rfl, hphase⟩, s,
          List.mem_append_left _ hs, hasks⟩

/-- The invariants of the records and of the callers together. -/
structure CacheKnown (ts : List Transition) (m : Manager) : Prop where
  callers : CallersKnown ts m
  keys : KeysKnown ts m
  /-- Callers that were refused a wake, or needed none, begin none later. -/
  barred : ∀ t ∈ ts, ∀ c s, t.Finds c (some s) →
    s = .notFound ∨ s = .running ∧ t.event = .engage c → m.BeginsNone c
  /-- Who began a wake found a machine that could be woken. -/
  asleep : ∀ t ∈ ts, ∀ c key, t.event = .engage c → t.entersWaking key →
    ∃ s, t.Finds c (some s) ∧ (s = .unknown ∨ s = .paused)

theorem cacheKnown_of_run {deadline : Duration} {es : List Event}
    (hrun : (start deadline).run es = some m) : CacheKnown ((start deadline).trail es) m := by
  apply (consistent_start deadline).trail_induction (P := CacheKnown) _ _ hrun
  · intro ts m event next hm hknown hstep
    have hconcat : ∀ {t}, t ∈ ts ++ [⟨m, event, next⟩] → t ∈ ts ∨ t = ⟨m, event, next⟩ := by
      intro t ht
      simpa using ht
    refine ⟨hknown.callers.step hstep, hknown.keys.step hm.wakes hknown.callers hstep, ?_, ?_⟩
    · intro t ht c s hfinds hs
      rcases hconcat ht with ht | rfl
      · exact (hknown.barred t ht c s hfinds hs).step hm hstep
      · exact beginsNone_of_finds hm hstep hfinds hs
    · intro t ht c key hevent henters
      rcases hconcat ht with ht | rfl
      · exact hknown.asleep t ht c key hevent henters
      · obtain rfl : event = .engage c := hevent
        exact finds_of_entersWaking hm hstep henters
  · constructor
    case callers => constructor <;> simp [start]
    case keys => constructor <;> simp [start]
    case barred => simp
    case asleep => simp

theorem begun_of_resume {deadline : Duration} {es : List Event}
    (hrun : (start deadline).run es = some m) {e : Episode} {handle : String}
    (hcall : .resume e handle ∈ (start deadline).calls es) :
    ∃ wake, m.wakes.find? e = some wake := by
  have hmem : Call.resume e handle ∈ m.resumesSoFar e := by
    rw [← filter_calls_of_run hrun]
    exact List.mem_filter.mpr ⟨hcall, by simp [Call.isResumeOf]⟩
  unfold resumesSoFar at hmem
  cases hwake : m.wakes.find? e with
  | none => simp [hwake] at hmem
  | some wake => exact ⟨wake, rfl⟩

theorem describe_mem_calls_iff {deadline : Duration} {es : List Event} {c : CallerId}
    {key : String} :
    .describe c key ∈ (start deadline).calls es ↔
      ∃ t ∈ (start deadline).trail es, t.Asks c key := by
  rw [mem_calls_iff]
  refine exists_congr fun t => and_congr_right fun ht => ?_
  exact call?_eq_describe_iff (Run.step_of_mem_trail ht)

/-- A caller that comes to a record has no key described: it comes only once. -/
theorem describes_none_of_finds {deadline : Duration} {es : List Event}
    (hknown : CacheKnown ((start deadline).trail es) m) {t : Transition}
    (ht : t ∈ (start deadline).trail es) {c : CallerId} {s : Lifecycle}
    (hfinds : t.Finds c (some s)) (hevent : t.event ≠ .engage c) (key : String) :
    .describe c key ∉ (start deadline).calls es := by
  intro hcall
  obtain ⟨t', ht', hasks⟩ := describe_mem_calls_iff.mp hcall
  obtain ⟨harrival, hnone⟩ := hasks.arrival (Run.step_of_mem_trail ht')
  cases hfinds with
  | @comes key' _ hcomes hfound =>
      obtain rfl := hknown.callers.once ht ht' hcomes harrival
      obtain ⟨_, rfl⟩ : c = c ∧ key' = key := by simpa [hcomes] using harrival
      simp [state?, hnone] at hfound
  | engage hengage => exact hevent hengage

/-- A caller that finds its key running or without a machine each time it looks makes no
call: it neither comes to a key without a record nor begins a wake. -/
theorem calls_none_of_finds {deadline : Duration} {es : List Event}
    (hrun : (start deadline).run es = some m)
    (hknown : CacheKnown ((start deadline).trail es) m) {c : CallerId}
    (hlooks : ∀ t ∈ (start deadline).trail es, ∀ s?, t.Finds c s? →
      s? = some .running ∨ s? = some .notFound)
    {call : Call} (hcall : call ∈ (start deadline).calls es) : call.caller ≠ c := by
  rintro rfl
  cases call with
  | describe c key =>
      obtain ⟨t, ht, hasks⟩ := describe_mem_calls_iff.mp hcall
      obtain ⟨harrival, hnone⟩ := hasks.arrival (Run.step_of_mem_trail ht)
      rcases hlooks t ht _ (.comes harrival rfl) with hs | hs <;> simp [state?, hnone] at hs
  | resume e handle =>
      obtain ⟨wake, hwake⟩ := begun_of_resume hrun hcall
      obtain ⟨earlier, t, later, hsplit, hevent, henters⟩ := wakesBegun_of_run hrun e wake hwake
      have ht : t ∈ (start deadline).trail es := by simp [hsplit]
      obtain ⟨s, hfinds, hs⟩ := hknown.asleep t ht e wake.key hevent henters
      rcases hlooks t ht _ hfinds with h | h <;> rcases hs with rfl | rfl <;> cases h

/-! ## The law -/

/-- However callers and answers interleave, a caller has a key described just when it comes to a
key without a record.  One that comes to a record has none described, and begins no wake if it
finds no machine, or a machine that runs when it looks to have it woken; so one that finds its key
like this each time it looks makes no call at all.  A caller whose key could not be described, or
that went away before it was, has changed no record.  The keys with records are those that were
described to a caller that was still there and had asked for it. -/
theorem cache_discipline {deadline : Duration} {es : List Event}
    (hrun : (start deadline).run es = some m) :
    (∀ t ∈ (start deadline).trail es, ∀ c key,
      (t.before.call? t.event = some (.describe c key) ↔ t.Asks c key) ∧
      (t.Asks c key → t.before.records.find? key = none)) ∧
    (∀ t ∈ (start deadline).trail es, ∀ c s, t.Finds c (some s) →
      (t.event ≠ .engage c → ∀ key, .describe c key ∉ (start deadline).calls es) ∧
      (s = .notFound ∨ s = .running ∧ t.event = .engage c →
        ∀ handle, .resume c handle ∉ (start deadline).calls es)) ∧
    (∀ c, (∀ t ∈ (start deadline).trail es, ∀ s?, t.Finds c s? →
        s? = some .running ∨ s? = some .notFound) →
      ∀ call ∈ (start deadline).calls es, call.caller ≠ c) ∧
    (∀ t ∈ (start deadline).trail es, ∀ c, t.Fails c →
      ∀ s ∈ (start deadline).trail es, s.event.caller? = some c →
        s.after.records = s.before.records) ∧
    (∀ key, key ∈ m.records.keys ↔ ∃ t ∈ (start deadline).trail es, ∃ c,
      t.Describes c key ∧ .describe c key ∈ (start deadline).calls es) := by
  have hknown := cacheKnown_of_run hrun
  refine ⟨?_, ?_, ?_, ?_, ?_⟩
  · intro t ht c key
    have hstep := Run.step_of_mem_trail ht
    exact ⟨call?_eq_describe_iff hstep, fun hasks => (hasks.arrival hstep).2⟩
  · intro t ht c s hfinds
    constructor
    · intro hevent key
      exact describes_none_of_finds hknown ht hfinds hevent key
    · intro hs handle hcall
      obtain ⟨wake, hwake⟩ := begun_of_resume hrun hcall
      have hnone := (hknown.barred t ht c s hfinds hs).1
      rw [hwake] at hnone
      cases hnone
  · intro c hlooks call hcall
    exact calls_none_of_finds hrun hknown hlooks hcall
  · intro t ht c hfails s hs hevent
    exact (hknown.callers.failed ht hfails).2 s hs hevent
  · intro key
    have hkeys : key ∈ m.records.keys ↔ m.records.find? key ≠ none := by
      rw [Ne, Table.find?_eq_none_iff, Decidable.not_not]
    rw [hkeys]
    constructor
    · intro hpresent
      obtain ⟨t, ht, c, hdescribes, s, hs, hasks⟩ := hknown.keys.described hpresent
      exact ⟨t, ht, c, hdescribes, describe_mem_calls_iff.mpr ⟨s, hs, hasks⟩⟩
    · rintro ⟨t, ht, c, hdescribes, _⟩
      exact hknown.keys.cached ht hdescribes

/-- Three callers ask about one key at once: one of them hears nothing, one goes away, and one is
told of a machine that runs.  No machine serves the next key, and the last one is never
described. -/
def rivalLooks : List Event :=
  [.lookup 1 "alpha", .ensure 2 "alpha" (.ofSeconds 5) false, .lookup 3 "alpha",
    .described 1 (.error (.remote "unreachable")), .leave 3,
    .described 2 (.ok [⟨"vm-1", "10.0.0.5", "Running", ["alpha"]⟩]), .engage 2,
    .lookup 4 "ghost", .described 4 (.ok []), .ensure 5 "ghost" (.ofSeconds 5) false, .engage 5,
    .lookup 6 "beta", .leave 6]

theorem cache_discipline_rivalLooks :
    ∃ m, (start defaultResumeDeadline).run rivalLooks = some m ∧
      (∃ t ∈ (start defaultResumeDeadline).trail rivalLooks, ∃ c, t.Describes c "alpha" ∧
        .describe c "alpha" ∈ (start defaultResumeDeadline).calls rivalLooks) ∧
      (¬∃ t ∈ (start defaultResumeDeadline).trail rivalLooks, ∃ c, t.Describes c "beta" ∧
        .describe c "beta" ∈ (start defaultResumeDeadline).calls rivalLooks) ∧
      (∀ handle, .resume 2 handle ∉ (start defaultResumeDeadline).calls rivalLooks) ∧
      (∀ key, .describe 5 key ∉ (start defaultResumeDeadline).calls rivalLooks) ∧
      ∀ s ∈ (start defaultResumeDeadline).trail rivalLooks, s.event.caller? = some 3 →
        s.after.records = s.before.records := by
  obtain ⟨m, hrun, halpha, hbeta⟩ : ∃ m, (start defaultResumeDeadline).run rivalLooks = some m ∧
      "alpha" ∈ m.records.keys ∧ "beta" ∉ m.records.keys := ⟨_, rfl, by decide, by decide⟩
  obtain ⟨_, hfinds, _, hfails, hkeys⟩ := cache_discipline hrun
  have hmem : ∀ i (h : i < ((start defaultResumeDeadline).trail rivalLooks).length),
      ((start defaultResumeDeadline).trail rivalLooks)[i] ∈
        (start defaultResumeDeadline).trail rivalLooks := fun i h => List.getElem_mem h
  refine ⟨m, hrun, (hkeys "alpha").mp halpha, mt (hkeys "beta").mpr hbeta, ?_, ?_, ?_⟩
  · exact (hfinds _ (hmem 6 (by decide)) 2 .running (.engage rfl rfl rfl)).2 (.inr ⟨rfl, rfl⟩)
  · exact (hfinds _ (hmem 9 (by decide)) 5 .notFound (.comes rfl rfl)).1 nofun
  · exact hfails _ (hmem 4 (by decide)) 3 ⟨⟨_, rfl, rfl⟩, .inl rfl⟩

end WakeRouter.Manager
