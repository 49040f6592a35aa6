import WakeRouter.Proofs.Manager.Episodes

/-!
# What answers tell

From what one event does to a caller one reads off, for every caller, the steps of the run that
led to where it is: when it came, when it began to wait and why it need not wait any longer.
`Manager.Grounds` says which steps justify which answer to a caller who wants an address.
-/

namespace WakeRouter.Manager

variable {m next : Manager}

theorem reception_eq_describing {key : String} {purpose : Purpose}
    (hphase : m.reception key purpose = .describing) : m.records.find? key = none := by
  unfold reception at hphase
  cases hrecord : m.records.find? key with
  | none => rfl
  | some r => cases purpose <;> simp [hrecord] at hphase

theorem reception_eq_found {key : String} {purpose : Purpose}
    (hphase : m.reception key purpose = .found) : ∃ r, m.records.find? key = some r := by
  unfold reception at hphase
  cases hrecord : m.records.find? key with
  | none => simp [hrecord] at hphase
  | some r => exact ⟨r, rfl⟩

/-- Who wants an address is not answered by the first look at the records. -/
theorem reception_ensure_ne_answered (m : Manager) (key : String) (timeout : Duration)
    (a : Answer) : m.reception key (.ensure timeout) ≠ .answered a := by
  unfold reception
  cases m.records.find? key <;> simp

/-! ## How callers came to be where they are -/

/-- The caller waits on these terms. -/
def Waits (m : Manager) (c : CallerId) (w : Wait) : Prop :=
  ∃ caller, m.callers.find? c = some caller ∧ caller.phase = .waiting w

/-- A caller that need not wait any longer was cancelled, or came cancelled. -/
def CancelsKnown (ts : List Transition) (m : Manager) : Prop :=
  ∀ c caller, m.callers.find? c = some caller → caller.cancelled →
    ∃ t ∈ ts, t.event = .cancel c ∨ ∃ key timeout, t.event = .ensure c key timeout true

/-- A caller who wants an address came to a key without a record if it has it described, and
the key of one that is past that has a record. -/
structure LooksKnown (ts : List Transition) (m : Manager) : Prop where
  describing : ∀ {c caller timeout}, m.callers.find? c = some caller →
    caller.purpose = .ensure timeout → caller.phase = .describing →
    ∃ t ∈ ts, ∃ cancelled, t.event = .ensure c caller.key timeout cancelled ∧
      t.before.records.find? caller.key = none
  found : ∀ {c caller}, m.callers.find? c = some caller → caller.phase = .found →
    ∃ r, m.records.find? caller.key = some r

/-- A caller waits from the moment on at which it joined or began its wake, and as long as it
wanted to when it came. -/
def WaitsKnown (ts : List Transition) (m : Manager) : Prop :=
  ∀ c caller w, m.callers.find? c = some caller → caller.phase = .waiting w →
    caller.purpose = .ensure w.timeout ∧
      ∃ t ∈ ts, t.event = .engage c ∧ t.before.now = w.since ∧ t.after.Waits c w

theorem CancelsKnown.step {ts : List Transition} (hknown : CancelsKnown ts m) {event : Event}
    (hstep : m.step event = some next) : CancelsKnown (ts ++ [⟨m, event, next⟩]) next := by
  intro c caller hcaller hcancelled
  have hmove := callerMove_of_step hstep c
  have hearlier : ∀ old, m.callers.find? c = some old → old.cancelled →
      ∃ t ∈ ts ++ [⟨m, event, next⟩],
        t.event = .cancel c ∨ ∃ key timeout, t.event = .ensure c key timeout true := by
    intro old hold holdCancelled
    obtain ⟨t, ht, hcause⟩ := hknown c old hold holdCancelled
    exact ⟨t, List.mem_append_left _ ht, hcause⟩
  have hnow : (event = .cancel c ∨ ∃ key timeout, event = .ensure c key timeout true) →
      ∃ t ∈ ts ++ [⟨m, event, next⟩],
        t.event = .cancel c ∨ ∃ key timeout, t.event = .ensure c key timeout true :=
    fun hcause => ⟨⟨m, event, next⟩, by simp, hcause⟩
  rw [hcaller] at hmove
  generalize hbefore : m.callers.find? c = before at hmove
  cases hmove with
  | kept => exact hearlier caller hbefore hcancelled
  | looks => cases hcancelled
  | comes key timeout cancelled =>
      obtain rfl : cancelled = true := hcancelled
      exact hnow (.inr ⟨key, timeout, rfl⟩)
  | cancelled => exact hnow (.inl rfl)
  | undescribed | described | refused | direct | waits | hears | leaves =>
      exact hearlier _ hbefore hcancelled

theorem LooksKnown.step {ts : List Transition} (hm : m.WakesHeld) (hknown : LooksKnown ts m)
    {event : Event} (hstep : m.step event = some next) :
    LooksKnown (ts ++ [⟨m, event, next⟩]) next := by
  have hrecords : ∀ key, (∃ r, m.records.find? key = some r) →
      ∃ r, next.records.find? key = some r := by
    rintro key ⟨r, hr⟩
    have hchange := recordChange_of_step hm hstep key
    rw [hr] at hchange
    obtain ⟨r', hr', _⟩ := hchange.some_of_some
    exact ⟨r', hr'⟩
  constructor
  case describing =>
    intro c caller timeout hcaller hpurpose hphase
    have hmove := callerMove_of_step hstep c
    have hearlier : ∀ old, m.callers.find? c = some old → old.purpose = .ensure timeout →
        old.phase = .describing → old.key = caller.key →
        ∃ t ∈ ts ++ [⟨m, event, next⟩], ∃ cancelled,
          t.event = .ensure c caller.key timeout cancelled ∧
            t.before.records.find? caller.key = none := by
      intro old hold hwants hasks hkey
      obtain ⟨t, ht, hcame⟩ := hknown.describing hold hwants hasks
      exact ⟨t, List.mem_append_left _ ht, hkey ▸ hcame⟩
    rw [hcaller] at hmove
    generalize hbefore : m.callers.find? c = before at hmove
    cases hmove with
    | kept => exact hearlier caller hbefore hpurpose hphase rfl
    | looks => cases hpurpose
    | comes key timeout' cancelled =>
        obtain rfl : timeout' = timeout := by simpa using hpurpose
        have hasks : m.reception key (.ensure timeout') = .describing := hphase
        exact ⟨⟨m, _, next⟩, by simp, cancelled, rfl, reception_eq_describing hasks⟩
    | @described old nodes _ =>
        have hnone : (m.discover old.key nodes).records.find? old.key = none :=
          reception_eq_describing hphase
        rw [find?_records_discover, if_pos rfl] at hnone
        cases hnone
    | @cancelled old => exact hearlier old hbefore hpurpose hphase rfl
    | undescribed | refused | direct | waits | hears | leaves => cases hphase
  case found =>
    intro c caller hcaller hphase
    have hmove := callerMove_of_step hstep c
    rw [hcaller] at hmove
    generalize hbefore : m.callers.find? c = before at hmove
    cases hmove with
    | kept => exact hrecords _ (hknown.found hbefore hphase)
    | looks key =>
        have hfound : m.reception key .lookup = .found := hphase
        exact hrecords key (reception_eq_found hfound)
    | comes key timeout _ =>
        have hfound : m.reception key (.ensure timeout) = .found := hphase
        exact hrecords key (reception_eq_found hfound)
    | described nodes _ =>
        obtain ⟨r, _, hr, _⟩ := find?_of_described hbefore hstep
        exact ⟨r, hr⟩
    | @cancelled old =>
        have hfound : old.phase = .found := hphase
        exact hrecords old.key (hknown.found hbefore hfound)
    | undescribed | refused | direct | waits | hears | leaves => cases hphase

theorem WaitsKnown.step {ts : List Transition} (hknown : WaitsKnown ts m) {event : Event}
    (hstep : m.step event = some next) : WaitsKnown (ts ++ [⟨m, event, next⟩]) next := by
  intro c caller w hcaller hphase
  have hmove := callerMove_of_step hstep c
  have hearlier : ∀ old, m.callers.find? c = some old → old.phase = .waiting w →
      old.purpose = .ensure w.timeout ∧ ∃ t ∈ ts ++ [⟨m, event, next⟩],
        t.event = .engage c ∧ t.before.now = w.since ∧ t.after.Waits c w := by
    intro old hold hwaits
    obtain ⟨hpurpose, t, ht, hbegan⟩ := hknown c old w hold hwaits
    exact ⟨hpurpose, t, List.mem_append_left _ ht, hbegan⟩
  have hnext := hcaller
  rw [hcaller] at hmove
  generalize hbefore : m.callers.find? c = before at hmove
  cases hmove with
  | kept => exact hearlier caller hbefore hphase
  | looks key => exact absurd hphase (reception_ne_waiting m key .lookup w)
  | comes key timeout _ => exact absurd hphase (reception_ne_waiting m key (.ensure timeout) w)
  | described nodes _ => exact absurd hphase (reception_ne_waiting _ _ _ w)
  | waits e _ hpurpose =>
      obtain rfl : _ = w := CallerPhase.waiting.inj hphase
      exact ⟨hpurpose, ⟨m, _, next⟩, by simp, rfl, rfl, _, hnext, rfl⟩
  | @cancelled old => exact hearlier old hbefore hphase
  | undescribed | refused | direct | hears | leaves => cases hphase

/-! ## How wakes ended -/

/-- In the step the end of the resume call of the wake reaches the record of the key, and
leaves it as it is given. -/
structure Transition.EndsWake (t : Transition) (e : Episode) (key : String)
    (result : Acknowledgement) (r : Record) : Prop where
  event_eq : t.event = .deliver e
  ending_eq : t.before.ending? key t.event = some result
  record_eq : t.after.records.find? key = some r

/-- An outcome that is out is that of the resume call of the wake. -/
def OutcomesKnown (ts : List Transition) (m : Manager) : Prop :=
  ∀ e wake outcome, m.wakes.find? e = some wake → wake.outcome? = some outcome →
    ∃ t ∈ ts, ∃ result r, t.EndsWake e wake.key result (Record.endWake result r) ∧
      outcome = .ofResult r.address result

theorem OutcomesKnown.step {ts : List Transition} (hm : m.Consistent)
    (hknown : OutcomesKnown ts m) {event : Event} (hstep : m.step event = some next) :
    OutcomesKnown (ts ++ [⟨m, event, next⟩]) next := by
  intro e wake outcome hwake houtcome
  have hchange := wakeChange_of_step hm hstep e
  have hearlier : ∀ old, m.wakes.find? e = some old → old.outcome? = some outcome →
      old.key = wake.key → ∃ t ∈ ts ++ [⟨m, event, next⟩], ∃ result r,
        t.EndsWake e wake.key result (Record.endWake result r) ∧
          outcome = .ofResult r.address result := by
    intro old hold hout hkey
    obtain ⟨t, ht, hended⟩ := hknown e old outcome hold hout
    exact ⟨t, List.mem_append_left _ ht, hkey ▸ hended⟩
  rw [hwake] at hchange
  generalize hbefore : m.wakes.find? e = before at hchange
  cases hchange with
  | kept => exact hearlier wake hbefore houtcome rfl
  | begun => cases houtcome
  | @resuming old => exact hearlier old hbefore houtcome rfl
  | @resumed _ old => exact hearlier old hbefore houtcome rfl
  | @delivered old result hstage address =>
      cases move_of_step hstep with
      | @deliver _ old' result' hold hstage' =>
          rw [hbefore, Option.some.injEq] at hold
          subst old'
          rw [hstage, WakeStage.resumed.injEq] at hstage'
          subst result'
          obtain ⟨r, hends⟩ := hm.wakes.ends hbefore hstage
          have hnow := hends.wakes_eq e
          rw [if_pos rfl, hwake, Option.some.injEq, Wake.mk.injEq] at hnow
          obtain ⟨_, _, _, hpublished⟩ := hnow
          refine ⟨_, List.mem_concat_self, result, r, ⟨rfl, ?_, ?_⟩, ?_⟩
          · simp [ending?, hbefore, hstage]
          · exact (hends.records_eq old.key).trans (if_pos rfl)
          · exact Option.some.inj (houtcome.symm.trans hpublished)

/-! ## What justifies an answer -/

/-- The caller is told the answer in the step. -/
structure Transition.Answers (t : Transition) (c : CallerId) (a : Answer) : Prop where
  pending : (t.before.callers.find? c).bind Caller.answer? = none
  answered : (t.after.callers.find? c).bind Caller.answer? = some a

/-- In the step a caller that would wait that long looks whether its wait is over, which began
in an earlier step. -/
structure Transition.Polls (earlier : List Transition) (t : Transition) (c : CallerId)
    (timeout : Duration) (w : Wait) : Prop where
  event_eq : t.event = .poll c
  waits : t.before.Waits c w
  began : ∃ s ∈ earlier, s.event = .engage c ∧ s.before.now = w.since ∧ s.after.Waits c w
  timeout_eq : w.timeout = timeout

/-- Why a caller for the key, who would wait that long, is told the answer in a step, given the
steps before it. -/
inductive Grounds (earlier : List Transition) (t : Transition) (c : CallerId) (key : String)
    (timeout : Duration) : Answer → Prop
  | running {r : Record} (hevent : t.event = .engage c)
      (hrecord : t.before.records.find? key = some r) (hstate : r.state = .running) :
      Grounds earlier t c key timeout (.address r.address)
  | woken {w : Wait} {d : Transition} {r now : Record} (hpolls : t.Polls earlier c timeout w)
      (hearlier : d ∈ earlier) (hended : d.EndsWake w.episode key .done r)
      (hstate : r.state = .running) (hrecord : t.before.records.find? key = some now)
      (haddress : now.address = r.address) :
      Grounds earlier t c key timeout (.address r.address)
  | wakeFailed {w : Wait} {d : Transition} {r : Record} {cause : ControlError}
      (hpolls : t.Polls earlier c timeout w) (hearlier : d ∈ earlier)
      (hended : d.EndsWake w.episode key (.failed cause) r) (hstate : r.state = .paused)
      (herror : r.wakeError? = some cause) :
      Grounds earlier t c key timeout (.error (.wakeFailed key cause))
  | timedOut {w : Wait} (hpolls : t.Polls earlier c timeout w)
      (hopen : t.before.outcome? w.episode = none)
      (hlate : w.since + timeout.nanos ≤ t.before.now) :
      Grounds earlier t c key timeout (.error (.wakeTimeout key timeout))
  | cancelled {w : Wait} {s : Transition} (hpolls : t.Polls earlier c timeout w)
      (hopen : t.before.outcome? w.episode = none)
      (hearly : t.before.now < w.since + timeout.nanos) (hearlier : s ∈ earlier)
      (hcancelled : s.event = .cancel c ∨ ∃ key timeout, s.event = .ensure c key timeout true) :
      Grounds earlier t c key timeout (.error (.cancelled key))
  | absent {r : Record} (hevent : t.event = .engage c)
      (hrecord : t.before.records.find? key = some r) (hstate : r.state = .notFound) :
      Grounds earlier t c key timeout (.error (.notFound key))
  | unreached {s : Transition} {cancelled : Bool} {cause : ControlError}
      (hevent : t.event = .described c (.error cause)) (hearlier : s ∈ earlier)
      (hcame : s.event = .ensure c key timeout cancelled)
      (hnone : s.before.records.find? key = none) :
      Grounds earlier t c key timeout (.error (.transport key cause))

/-- How the callers came to be where they are, and how the wakes ended that have ended. -/
structure StepsKnown (ts : List Transition) (m : Manager) : Prop where
  cancels : CancelsKnown ts m
  looks : LooksKnown ts m
  waits : WaitsKnown ts m
  outcomes : OutcomesKnown ts m

theorem StepsKnown.step {ts : List Transition} (hm : m.Consistent) (hknown : StepsKnown ts m)
    {event : Event} (hstep : m.step event = some next) :
    StepsKnown (ts ++ [⟨m, event, next⟩]) next where
  cancels := hknown.cancels.step hstep
  looks := hknown.looks.step hm.wakes hstep
  waits := hknown.waits.step hstep
  outcomes := hknown.outcomes.step hm hstep

theorem stepsKnown_start (deadline : Duration) : StepsKnown [] (start deadline) := by
  refine ⟨?_, ⟨?_, ?_⟩, ?_, ?_⟩
  · intro c caller hcaller
    simp [start] at hcaller
  · intro c caller timeout hcaller
    simp [start] at hcaller
  · intro c caller hcaller
    simp [start] at hcaller
  · intro c caller w hcaller
    simp [start] at hcaller
  · intro e wake outcome hwake
    simp [start] at hwake

theorem StepsKnown.polls {ts : List Transition} (hknown : StepsKnown ts m) {c : CallerId}
    {caller : Caller} {w : Wait} {timeout : Duration} (hcaller : m.callers.find? c = some caller)
    (hphase : caller.phase = .waiting w) (hpurpose : caller.purpose = .ensure timeout)
    (after : Manager) : Transition.Polls ts ⟨m, .poll c, after⟩ c timeout w := by
  obtain ⟨hterms, hbegan⟩ := hknown.waits c caller w hcaller hphase
  rw [hpurpose, Purpose.ensure.injEq] at hterms
  exact ⟨rfl, ⟨caller, hcaller, hphase⟩, hbegan, hterms.symm⟩

/-- An outcome justifies what it makes the callers of its wake be told. -/
theorem StepsKnown.grounds_of_outcome {ts : List Transition} (hm : m.Consistent)
    (hknown : StepsKnown ts m) {c : CallerId} {caller : Caller} {w : Wait} {timeout : Duration}
    {outcome : WakeOutcome} (hcaller : m.callers.find? c = some caller)
    (hphase : caller.phase = .waiting w) (hpurpose : caller.purpose = .ensure timeout)
    (houtcome : m.outcome? w.episode = some outcome) (after : Manager) :
    Grounds ts ⟨m, .poll c, after⟩ c caller.key timeout (outcome.answer caller.key) := by
  have hpolls := hknown.polls hcaller hphase hpurpose after
  obtain ⟨wake, hwake, hpublished⟩ := Option.bind_eq_some_iff.mp houtcome
  obtain ⟨wake', hwake', hkey⟩ := hm.callers.awaited hcaller hphase
  rw [hwake, Option.some.injEq] at hwake'
  subst wake'
  obtain ⟨d, hd, result, r, hended, hresult⟩ := hknown.outcomes _ wake outcome hwake hpublished
  rw [hkey] at hended
  cases result with
  | done =>
      obtain ⟨now, hnow, _, haddress⟩ := hm.wakes.target hwake
      rw [hkey] at hnow
      rw [hresult] at hpublished ⊢
      have hsame := haddress r.address hpublished
      have hgrounds := Grounds.woken hpolls hd hended rfl hnow hsame.symm
      exact hgrounds
  | failed cause =>
      rw [hresult]
      exact .wakeFailed hpolls hd hended rfl rfl

theorem StepsKnown.grounds_of_verdict {ts : List Transition} (hm : m.Consistent)
    (hknown : StepsKnown ts m) {c : CallerId} {caller : Caller} {w : Wait} {timeout : Duration}
    {a : Answer} (hcaller : m.callers.find? c = some caller)
    (hphase : caller.phase = .waiting w) (hpurpose : caller.purpose = .ensure timeout)
    (hverdict : m.verdict? caller w = some a) (after : Manager) :
    Grounds ts ⟨m, .poll c, after⟩ c caller.key timeout a := by
  have hpolls := hknown.polls hcaller hphase hpurpose after
  have hterms := hpolls.timeout_eq
  unfold verdict? at hverdict
  cases houtcome : m.outcome? w.episode with
  | some outcome =>
      simp only [houtcome, Option.some.injEq] at hverdict
      rw [← hverdict]
      exact hknown.grounds_of_outcome hm hcaller hphase hpurpose houtcome after
  | none =>
      -- The wake is held by the record of the key, so it is not abandoned.
      obtain ⟨r, hr, _, he⟩ := hm.awaited_held hcaller hphase houtcome
      have hheld : m.isHeld w.episode := isHeld_iff.mpr ⟨caller.key, r, hr, he⟩
      simp only [houtcome, hheld, Bool.not_true, Bool.false_eq_true, if_false, hterms] at hverdict
      split at hverdict
      next hlate =>
        rw [Option.some.injEq] at hverdict
        rw [← hverdict]
        exact .timedOut hpolls houtcome hlate
      next hearly =>
        split at hverdict
        next hcancelled =>
          rw [Option.some.injEq] at hverdict
          rw [← hverdict]
          obtain ⟨s, hs, hcause⟩ := hknown.cancels c caller hcaller hcancelled
          exact .cancelled hpolls houtcome (Nat.lt_of_not_le hearly) hs hcause
        next => cases hverdict

/-- What a caller who wants an address has been told, it was told on good grounds. -/
def AnswersGrounded (ts : List Transition) (m : Manager) : Prop :=
  ∀ c caller timeout a, m.callers.find? c = some caller → caller.purpose = .ensure timeout →
    caller.phase = .answered a →
    ∃ earlier t later, ts = earlier ++ t :: later ∧ t.Answers c a ∧
      Grounds earlier t c caller.key timeout a

theorem AnswersGrounded.step {ts : List Transition} (hm : m.Consistent)
    (hknown : StepsKnown ts m) (hgrounded : AnswersGrounded ts m) {event : Event}
    (hstep : m.step event = some next) :
    AnswersGrounded (ts ++ [⟨m, event, next⟩]) next := by
  intro c caller timeout a hcaller hpurpose hphase
  have hmove := callerMove_of_step hstep c
  have hearlier : ∀ old, m.callers.find? c = some old → old.purpose = .ensure timeout →
      old.phase = .answered a → old.key = caller.key →
      ∃ earlier t later, ts ++ [⟨m, event, next⟩] = earlier ++ t :: later ∧ t.Answers c a ∧
        Grounds earlier t c caller.key timeout a := by
    intro old hold hwants hanswered hkey
    obtain ⟨earlier, t, later, rfl, hgrounds⟩ := hgrounded c old timeout a hold hwants hanswered
    exact ⟨earlier, t, later ++ [⟨m, event, next⟩], by simp, hkey ▸ hgrounds⟩
  -- In all other cases the caller is told in this very step, and the steps before are known.
  have hnow : ∀ old, m.callers.find? c = some old → old.answer? = none →
      Grounds ts ⟨m, event, next⟩ c caller.key timeout a →
      ∃ earlier t later, ts ++ [⟨m, event, next⟩] = earlier ++ t :: later ∧ t.Answers c a ∧
        Grounds earlier t c caller.key timeout a := by
    intro old hold hpending hgrounds
    refine ⟨ts, ⟨m, event, next⟩, [], rfl, ⟨?_, ?_⟩, hgrounds⟩
    · rw [hold, Option.bind_some, hpending]
    · rw [hcaller, Option.bind_some, Caller.answer?, hphase]
  rw [hcaller] at hmove
  generalize hbefore : m.callers.find? c = before at hmove
  cases hmove with
  | kept => exact hearlier caller hbefore hpurpose hphase rfl
  | looks => cases hpurpose
  | comes key timeout' _ => exact absurd hphase (reception_ensure_ne_answered m key timeout' a)
  | @undescribed old cause hasks =>
      obtain ⟨s, hs, cancelled, hcame, hnone⟩ := hknown.looks.describing hbefore hpurpose hasks
      obtain rfl := CallerPhase.answered.inj hphase
      exact hnow old hbefore (by simp [Caller.answer?, hasks]) (.unreached rfl hs hcame hnone)
  | @described old nodes _ =>
      have hlooked : (m.discover old.key nodes).reception old.key old.purpose = .answered a :=
        hphase
      rw [show old.purpose = .ensure timeout from hpurpose] at hlooked
      exact absurd hlooked (reception_ensure_ne_answered _ _ _ a)
  | @refused old hfound hrecord =>
      obtain ⟨r, hr⟩ := hknown.looks.found hbefore hfound
      obtain rfl := CallerPhase.answered.inj hphase
      exact hnow old hbefore (by simp [Caller.answer?, hfound]) (.absent rfl hr (hrecord r hr))
  | @direct old r hfound hr hstate =>
      obtain rfl := CallerPhase.answered.inj hphase
      exact hnow old hbefore (by simp [Caller.answer?, hfound]) (.running rfl hr hstate)
  | waits => cases hphase
  | @hears old w a' hwaits hverdict =>
      have hwants : old.purpose = .ensure timeout := hpurpose
      have hgrounds := hknown.grounds_of_verdict hm hbefore hwaits hwants hverdict next
      obtain rfl := CallerPhase.answered.inj hphase
      exact hnow old hbefore (by simp [Caller.answer?, hwaits]) hgrounds
  | @cancelled old => exact hearlier old hbefore hpurpose hphase rfl
  | leaves => cases hphase

theorem stepsKnown_of_run {deadline : Duration} {es : List Event}
    (hrun : (start deadline).run es = some m) : StepsKnown ((start deadline).trail es) m :=
  (consistent_start deadline).trail_induction (P := StepsKnown)
    (fun hm hknown hstep => hknown.step hm hstep) (stepsKnown_start deadline) hrun

theorem answersGrounded_of_run {deadline : Duration} {es : List Event}
    (hrun : (start deadline).run es = some m) : AnswersGrounded ((start deadline).trail es) m := by
  have hboth := (consistent_start deadline).trail_induction
    (P := fun ts n => StepsKnown ts n ∧ AnswersGrounded ts n)
    (fun hm hboth hstep => ⟨hboth.1.step hm hstep, hboth.2.step hm hboth.1 hstep⟩)
    ⟨stepsKnown_start deadline, ?_⟩ hrun
  · exact hboth.2
  · intro c caller timeout a hcaller
    simp [start] at hcaller

/-! ## The law -/

/-- However events interleave, a caller who wants an address is told an answer for which there
are grounds.  Its key has a record from the moment on at which it would look at it, and once
the outcome of its wake is out, the outcome is what it hears, late and cancelled as it may
be. -/
theorem answers_truthful {deadline : Duration} {es : List Event}
    (hrun : (start deadline).run es = some m) :
    (∀ c caller timeout a, m.callers.find? c = some caller →
      caller.purpose = .ensure timeout → caller.phase = .answered a →
      ∃ earlier t later, (start deadline).trail es = earlier ++ t :: later ∧ t.Answers c a ∧
        Grounds earlier t c caller.key timeout a) ∧
    (∀ c caller, m.callers.find? c = some caller → caller.phase = .found →
      ∃ r, m.records.find? caller.key = some r) ∧
    (∀ c caller w outcome, m.callers.find? c = some caller → caller.phase = .waiting w →
      m.outcome? w.episode = some outcome →
      ∃ next, m.step (.poll c) = some next ∧ next.callers.find? c =
        some { caller with phase := .answered (outcome.answer caller.key) }) := by
  refine ⟨answersGrounded_of_run hrun, ?_, ?_⟩
  · intro c caller hcaller hphase
    exact (stepsKnown_of_run hrun).looks.found hcaller hphase
  · intro c caller w outcome hcaller hphase houtcome
    have hverdict : m.verdict? caller w = some (outcome.answer caller.key) := by
      simp [verdict?, houtcome]
    refine ⟨_, (Move.hear hcaller hphase hverdict).step_eq, ?_⟩
    rw [find?_callers_setPhase, if_pos rfl, hcaller, Option.map_some]

/-- The first caller is late and cancelled when the wake has failed, but hears that it has; the
second gave up before, and the third asks for a key that no machine serves. -/
def lateLook : List Event :=
  [.ensure 1 "alpha" .zero false,
    .described 1 (.ok [⟨"vm-1", "10.0.0.5", "paused", ["alpha"]⟩]), .engage 1,
    .ensure 2 "alpha" (.ofSeconds 1) true, .engage 2, .poll 2, .resume 1, .cancel 1,
    .resumed 1 (.failed (.remote "no capacity")), .deliver 1, .elapse (.ofSeconds 2), .poll 1,
    .ensure 3 "ghost" .zero false, .described 3 (.ok []), .engage 3]

theorem answers_truthful_lateLook :
    ∃ m, (start defaultResumeDeadline).run lateLook = some m ∧
      (∃ earlier t, Grounds earlier t 1 "alpha" .zero
        (.error (.wakeFailed "alpha" (.remote "no capacity")))) ∧
      (∃ earlier t, Grounds earlier t 2 "alpha" (.ofSeconds 1) (.error (.cancelled "alpha"))) ∧
      ∃ earlier t, Grounds earlier t 3 "ghost" .zero (.error (.notFound "ghost")) := by
  obtain ⟨m, hrun⟩ : ∃ m, (start defaultResumeDeadline).run lateLook = some m := ⟨_, rfl⟩
  obtain ⟨hgrounded, _, _⟩ := answers_truthful hrun
  cases hrun
  obtain ⟨earlier₁, t₁, _, _, _, hfirst⟩ := hgrounded 1 _ _ _ rfl rfl rfl
  obtain ⟨earlier₂, t₂, _, _, _, hsecond⟩ := hgrounded 2 _ _ _ rfl rfl rfl
  obtain ⟨earlier₃, t₃, _, _, _, hthird⟩ := hgrounded 3 _ _ _ rfl rfl rfl
  exact ⟨_, rfl, ⟨earlier₁, t₁, hfirst⟩, ⟨earlier₂, t₂, hsecond⟩, ⟨earlier₃, t₃, hthird⟩⟩

end WakeRouter.Manager
