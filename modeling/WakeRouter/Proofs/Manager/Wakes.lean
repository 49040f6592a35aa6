import WakeRouter.Proofs.Manager.Run
import WakeRouter.Proofs.Manager.Step

/-!
# Wakes, the records that hold them and the callers that wait for them

`Manager.WakesHeld` ties the wakes that are under way to the records, and
`Manager.CallersPlaced` ties wakes to their callers.  Both hold after every run.
-/

namespace WakeRouter

/-! ## Records -/

namespace Record

/-- A change to a record that neither begins nor ends a wake. -/
structure KeepsWake (f : Record → Record) : Prop where
  wake_eq : ∀ r, (f r).wake? = r.wake?
  waking_iff : ∀ r, (f r).state = .waking ↔ r.state = .waking
  handle_eq : ∀ r, (f r).handle = r.handle
  address_eq : ∀ r, (f r).address = r.address

theorem keepsWake_touch (now : Instant) : KeepsWake (touch now) := by
  constructor <;> intro r <;> simp [touch]

theorem keepsWake_markPaused : KeepsWake markPaused := by
  constructor <;> intro r <;> unfold markPaused <;> cases hstate : r.state <;> simp [hstate]

theorem ofNodes_wake (nodes : List Node) (now : Instant) : (ofNodes nodes now).wake? = none := by
  cases nodes <;> rfl

theorem ofNodes_state_ne_waking (nodes : List Node) (now : Instant) :
    (ofNodes nodes now).state ≠ .waking := by
  cases nodes with
  | nil => simp [ofNodes, notFound]
  | cons node rest =>
      simp only [ofNodes, ofNode]
      cases node.remoteStatus <;> simp [Lifecycle.ofStatus]

@[simp] theorem endWake_handle (result : Acknowledgement) (r : Record) :
    (r.endWake result).handle = r.handle := by
  cases result <;> rfl

@[simp] theorem endWake_address (result : Acknowledgement) (r : Record) :
    (r.endWake result).address = r.address := by
  cases result <;> rfl

@[simp] theorem endWake_wake (result : Acknowledgement) (r : Record) :
    (r.endWake result).wake? = none := by
  cases result <;> rfl

theorem endWake_state_ne_waking (result : Acknowledgement) (r : Record) :
    (r.endWake result).state ≠ .waking := by
  cases result <;> simp [endWake]

end Record

namespace Manager

/-! ## Wakes and records -/

/-- A record is waking while it holds a wake, and the wakes that records hold are those
whose end has not been delivered. -/
structure WakesHeld (m : Manager) : Prop where
  waking_iff : ∀ {key r}, m.records.find? key = some r →
    (r.state = .waking ↔ r.wake?.isSome)
  held : ∀ {key r e}, m.records.find? key = some r → r.wake? = some e →
    ∃ wake, m.wakes.find? e = some wake ∧ wake.key = key ∧ wake.stage ≠ .delivered
  undelivered : ∀ {e wake}, m.wakes.find? e = some wake → wake.stage ≠ .delivered →
    ∃ r, m.records.find? wake.key = some r ∧ r.wake? = some e
  outcome_iff : ∀ {e wake}, m.wakes.find? e = some wake →
    (wake.outcome?.isSome ↔ wake.stage = .delivered)
  target : ∀ {e wake}, m.wakes.find? e = some wake →
    ∃ r, m.records.find? wake.key = some r ∧ wake.handle = r.handle ∧
      ∀ address, wake.outcome? = some (.ready address) → address = r.address

variable {m next : Manager}

theorem wakesHeld_start (deadline : Duration) : (start deadline).WakesHeld := by
  constructor <;> simp [start]

theorem WakesHeld.ofSame (hm : m.WakesHeld) (hrecords : next.records = m.records)
    (hwakes : next.wakes = m.wakes) : next.WakesHeld := by
  cases next
  subst hrecords hwakes
  exact ⟨hm.waking_iff, hm.held, hm.undelivered, hm.outcome_iff, hm.target⟩

theorem WakesHeld.modify (hm : m.WakesHeld) (key : String) {f : Record → Record}
    (hf : Record.KeepsWake f) : (m.modify key f).WakesHeld := by
  have hback : ∀ {key' r}, (m.modify key f).records.find? key' = some r →
      ∃ r', m.records.find? key' = some r' ∧ r.wake? = r'.wake? ∧
        (r.state = .waking ↔ r'.state = .waking) := by
    intro key' r hfind
    rw [find?_records_modify] at hfind
    split at hfind
    · obtain ⟨r', hr', rfl⟩ := Option.map_eq_some_iff.mp hfind
      exact ⟨r', hr', hf.wake_eq r', hf.waking_iff r'⟩
    · exact ⟨r, hfind, rfl, Iff.rfl⟩
  have hforth : ∀ {key' r'}, m.records.find? key' = some r' →
      ∃ r, (m.modify key f).records.find? key' = some r ∧ r.wake? = r'.wake? ∧
        r.handle = r'.handle ∧ r.address = r'.address := by
    intro key' r' hfind
    rw [find?_records_modify, hfind]
    split
    · exact ⟨f r', rfl, hf.wake_eq r', hf.handle_eq r', hf.address_eq r'⟩
    · exact ⟨r', rfl, rfl, rfl, rfl⟩
  constructor
  case waking_iff =>
    intro key' r hfind
    obtain ⟨r', hr', hwake, hwaking⟩ := hback hfind
    rw [hwaking, hwake]
    exact hm.waking_iff hr'
  case held =>
    intro key' r e hfind he
    obtain ⟨r', hr', hwake, _⟩ := hback hfind
    exact hm.held hr' (hwake ▸ he)
  case undelivered =>
    intro e wake hfind hstage
    obtain ⟨r', hr', he⟩ := hm.undelivered hfind hstage
    obtain ⟨r, hr, hwake, _⟩ := hforth hr'
    exact ⟨r, hr, hwake.trans he⟩
  case outcome_iff => exact hm.outcome_iff
  case target =>
    intro e wake hfind
    obtain ⟨r', hr', hhandle, haddress⟩ := hm.target hfind
    obtain ⟨r, hr, _, hhandle', haddress'⟩ := hforth hr'
    exact ⟨r, hr, hhandle.trans hhandle'.symm, fun a ha => (haddress a ha).trans haddress'.symm⟩

theorem find?_records_discover_of_some {key key' : String} {r : Record} (nodes : List Node)
    (hfind : m.records.find? key' = some r) :
    (m.discover key nodes).records.find? key' = some r := by
  rw [find?_records_discover]
  split
  next hsame =>
    subst key'
    simp [hfind]
  next => exact hfind

theorem WakesHeld.discover (hm : m.WakesHeld) (key : String) (nodes : List Node) :
    (m.discover key nodes).WakesHeld := by
  have hback : ∀ {key' r}, (m.discover key nodes).records.find? key' = some r →
      m.records.find? key' = some r ∨ r = .ofNodes nodes m.now := by
    intro key' r hfind
    rw [find?_records_discover] at hfind
    split at hfind
    next hsame =>
      subst key'
      cases hr : m.records.find? key <;> simp_all
    next => exact .inl hfind
  constructor
  case waking_iff =>
    intro key' r hfind
    rcases hback hfind with hr | rfl
    · exact hm.waking_iff hr
    · simp [Record.ofNodes_wake, Record.ofNodes_state_ne_waking]
  case held =>
    intro key' r e hfind he
    rcases hback hfind with hr | rfl
    · exact hm.held hr he
    · simp [Record.ofNodes_wake] at he
  case undelivered =>
    intro e wake hfind hstage
    obtain ⟨r, hr, he⟩ := hm.undelivered hfind hstage
    exact ⟨r, find?_records_discover_of_some nodes hr, he⟩
  case outcome_iff => exact hm.outcome_iff
  case target =>
    intro e wake hfind
    obtain ⟨r, hr, htarget⟩ := hm.target hfind
    exact ⟨r, find?_records_discover_of_some nodes hr, htarget⟩

/-- The resume call of a wake goes on, or ends. -/
theorem WakesHeld.setStage (hm : m.WakesHeld) {e : Episode} {wake : Wake} {stage : WakeStage}
    (hwake : m.wakes.find? e = some wake) (hbefore : wake.stage ≠ .delivered)
    (hafter : stage ≠ .delivered) : (m.setStage e stage).WakesHeld := by
  have hback : ∀ {e' wake'}, (m.setStage e stage).wakes.find? e' = some wake' →
      ∃ old, m.wakes.find? e' = some old ∧ wake'.key = old.key ∧ wake'.handle = old.handle ∧
        wake'.outcome? = old.outcome? ∧ (wake'.stage = .delivered ↔ old.stage = .delivered) := by
    intro e' wake' hfind
    rw [find?_wakes_setStage] at hfind
    split at hfind
    next hsame =>
      subst e'
      rw [hwake] at hfind
      simp only [Option.map_some, Option.some.injEq] at hfind
      subst wake'
      exact ⟨wake, hwake, rfl, rfl, rfl, by simp [hbefore, hafter]⟩
    next => exact ⟨wake', hfind, rfl, rfl, rfl, Iff.rfl⟩
  constructor
  case waking_iff => exact hm.waking_iff
  case held =>
    intro key r e' hfind he
    obtain ⟨old, hold, hkey, hstage⟩ := hm.held hfind he
    rw [find?_wakes_setStage]
    split
    · rw [hold]
      exact ⟨_, rfl, hkey, hafter⟩
    · exact ⟨old, hold, hkey, hstage⟩
  case undelivered =>
    intro e' wake' hfind hstage
    obtain ⟨old, hold, hkey, _, _, hdelivered⟩ := hback hfind
    rw [hkey]
    exact hm.undelivered hold (mt hdelivered.mpr hstage)
  case outcome_iff =>
    intro e' wake' hfind
    obtain ⟨old, hold, _, _, houtcome, hdelivered⟩ := hback hfind
    rw [houtcome, hdelivered]
    exact hm.outcome_iff hold
  case target =>
    intro e' wake' hfind
    obtain ⟨old, hold, hkey, hhandle, houtcome, _⟩ := hback hfind
    rw [hkey, hhandle, houtcome]
    exact hm.target hold

theorem WakesHeld.beginWake (hm : m.WakesHeld) {c : CallerId} {key : String} {r : Record}
    (hrecord : m.records.find? key = some r) (hnone : r.wake? = none)
    (hfresh : m.wakes.find? c = none) : (m.beginWake c key r).WakesHeld := by
  have hself : (m.beginWake c key r).records.find? key = some (r.beginWake c) := by
    rw [find?_records_beginWake, if_pos rfl, hrecord]
    rfl
  have hother : ∀ {key'}, key' ≠ key →
      (m.beginWake c key r).records.find? key' = m.records.find? key' := by
    intro key' hne
    rw [find?_records_beginWake, if_neg hne]
  have hwakes := fun e => find?_wakes_beginWake hfresh e key r
  constructor
  case waking_iff =>
    intro key' r' hfind
    by_cases hkey : key' = key
    · subst key'
      rw [hself, Option.some.injEq] at hfind
      subst r'
      simp [Record.beginWake]
    · rw [hother hkey] at hfind
      exact hm.waking_iff hfind
  case held =>
    intro key' r' e hfind he
    by_cases hkey : key' = key
    · subst key'
      rw [hself, Option.some.injEq] at hfind
      subst r'
      simp only [Record.beginWake, Option.some.injEq] at he
      subst e
      exact ⟨_, (hwakes c).trans (if_pos rfl), rfl, by simp⟩
    · rw [hother hkey] at hfind
      obtain ⟨wake, hwake, hstage⟩ := hm.held hfind he
      have hne : e ≠ c := by
        rintro rfl
        rw [hfresh] at hwake
        cases hwake
      exact ⟨wake, (hwakes e).trans ((if_neg hne).trans hwake), hstage⟩
  case undelivered =>
    intro e wake hfind hstage
    rw [hwakes] at hfind
    split at hfind
    next hsame =>
      cases hfind
      exact ⟨_, hself, by simp [Record.beginWake, hsame]⟩
    next hne =>
      obtain ⟨r', hr', he⟩ := hm.undelivered hfind hstage
      have hkey : wake.key ≠ key := by
        rintro rfl
        rw [hrecord, Option.some.injEq] at hr'
        subst r'
        rw [hnone] at he
        cases he
      exact ⟨r', (hother hkey).trans hr', he⟩
  case outcome_iff =>
    intro e wake hfind
    rw [hwakes] at hfind
    split at hfind
    · cases hfind
      simp
    · exact hm.outcome_iff hfind
  case target =>
    intro e wake hfind
    rw [hwakes] at hfind
    split at hfind
    · cases hfind
      exact ⟨_, hself, rfl, by simp⟩
    · obtain ⟨r', hr', htarget⟩ := hm.target hfind
      by_cases hkey : wake.key = key
      · rw [hkey, hrecord, Option.some.injEq] at hr'
        subst r'
        rw [hkey]
        exact ⟨_, hself, htarget⟩
      · exact ⟨r', (hother hkey).trans hr', htarget⟩

/-- The end of a resume call ends the wake that the call belongs to, and no other. -/
structure Ends (m : Manager) (e : Episode) (wake : Wake) (result : Acknowledgement) (r : Record)
    (next : Manager) : Prop where
  record_eq : m.records.find? wake.key = some r
  waking : r.state = .waking
  holds : r.wake? = some e
  callers_eq : next.callers = m.callers
  records_eq : ∀ key, next.records.find? key =
    if key = wake.key then some (r.endWake result) else m.records.find? key
  wakes_eq : ∀ e', next.wakes.find? e' =
    if e' = e then
      some { wake with stage := .delivered, outcome? := some (.ofResult r.address result) }
    else m.wakes.find? e'

/-- The end of a resume call finds the record waking, and holding the wake of the call. -/
theorem WakesHeld.finish_eq (hm : m.WakesHeld) {e : Episode} {wake : Wake}
    {result : Acknowledgement} (hwake : m.wakes.find? e = some wake)
    (hstage : wake.stage = .resumed result) :
    ∃ r, m.records.find? wake.key = some r ∧ r.state = .waking ∧ r.wake? = some e ∧
      (m.setStage e .delivered).finish wake.key result =
        ((m.setStage e .delivered).modify wake.key (Record.endWake result)).publish e
          (.ofResult r.address result) := by
  obtain ⟨r, hrecord, hholds⟩ := hm.undelivered hwake (by simp [hstage])
  have hwaking : r.state = .waking := (hm.waking_iff hrecord).mpr (by simp [hholds])
  refine ⟨r, hrecord, hwaking, hholds, ?_⟩
  simp [finish, hrecord, hwaking, hholds]

theorem WakesHeld.ends (hm : m.WakesHeld) {e : Episode} {wake : Wake} {result : Acknowledgement}
    (hwake : m.wakes.find? e = some wake) (hstage : wake.stage = .resumed result) :
    ∃ r, m.Ends e wake result r ((m.setStage e .delivered).finish wake.key result) := by
  obtain ⟨r, hrecord, hwaking, hholds, hfinish⟩ := hm.finish_eq hwake hstage
  refine ⟨r, hrecord, hwaking, hholds, ?_, ?_, ?_⟩
  · rw [hfinish]
    rfl
  · intro key
    rw [hfinish, records_publish, find?_records_modify, records_setStage]
    split
    next hkey => rw [hkey, hrecord, Option.map_some]
    next => rfl
  · intro e'
    rw [hfinish, find?_wakes_publish, wakes_modify, find?_wakes_setStage]
    split
    next he => rw [he, hwake, Option.map_some, Option.map_some]
    next => rfl

theorem WakesHeld.afterEnd (hm : m.WakesHeld) {e : Episode} {wake : Wake}
    {result : Acknowledgement} {r : Record} (hwake : m.wakes.find? e = some wake)
    (hends : m.Ends e wake result r next) : next.WakesHeld := by
  obtain ⟨hrecord, _, hholds, _, hrecords, hwakes⟩ := hends
  have hself : next.records.find? wake.key = some (r.endWake result) := by
    rw [hrecords, if_pos rfl]
  constructor
  case waking_iff =>
    intro key r' hfind
    rw [hrecords] at hfind
    split at hfind
    · cases hfind
      simp [Record.endWake_state_ne_waking]
    · exact hm.waking_iff hfind
  case held =>
    intro key r' e' hfind he
    rw [hrecords] at hfind
    split at hfind
    · cases hfind
      simp at he
    next hkey =>
      obtain ⟨wake', hwake', hkey', hstage'⟩ := hm.held hfind he
      have hne : e' ≠ e := by
        rintro rfl
        rw [hwake, Option.some.injEq] at hwake'
        subst wake'
        exact hkey hkey'.symm
      exact ⟨wake', by rw [hwakes, if_neg hne, hwake'], hkey', hstage'⟩
  case undelivered =>
    intro e' wake' hfind hstage'
    rw [hwakes] at hfind
    split at hfind
    · cases hfind
      exact absurd rfl hstage'
    next hne =>
      obtain ⟨r', hr', he'⟩ := hm.undelivered hfind hstage'
      have hkey : wake'.key ≠ wake.key := by
        intro hkey
        rw [hkey, hrecord, Option.some.injEq] at hr'
        subst r'
        rw [hholds, Option.some.injEq] at he'
        exact hne he'.symm
      exact ⟨r', by rw [hrecords, if_neg hkey, hr'], he'⟩
  case outcome_iff =>
    intro e' wake' hfind
    rw [hwakes] at hfind
    split at hfind
    · cases hfind
      simp
    · exact hm.outcome_iff hfind
  case target =>
    intro e' wake' hfind
    rw [hwakes] at hfind
    split at hfind
    · cases hfind
      obtain ⟨r', hr', hhandle, _⟩ := hm.target hwake
      rw [hrecord, Option.some.injEq] at hr'
      subst r'
      refine ⟨_, hself, by simpa using hhandle, fun address haddress => ?_⟩
      cases result with
      | done => simpa [WakeOutcome.ofResult] using haddress.symm
      | failed cause => simp [WakeOutcome.ofResult] at haddress
    · obtain ⟨r', hr', htarget⟩ := hm.target hfind
      by_cases hkey : wake'.key = wake.key
      · rw [hkey, hrecord, Option.some.injEq] at hr'
        subst r'
        exact ⟨_, hkey ▸ hself, by simpa using htarget⟩
      · exact ⟨r', by rw [hrecords, if_neg hkey, hr'], htarget⟩

end Manager

/-! ## Callers and wakes -/

/-- The caller has looked at the record of its key, or will not do so any more. -/
def Caller.IsPast (caller : Caller) : Prop :=
  caller.phase ≠ .describing ∧ caller.phase ≠ .found

theorem Manager.reception_ne_waiting (m : Manager) (key : String) (purpose : Purpose) (w : Wait) :
    m.reception key purpose ≠ .waiting w := by
  unfold reception
  cases m.records.find? key <;> cases purpose <;> simp

namespace Manager

/-- A wake goes by the name of a caller for its key, and callers wait for wakes of theirs. -/
structure CallersPlaced (m : Manager) : Prop where
  beginner : ∀ {e wake}, m.wakes.find? e = some wake →
    ∃ caller, m.callers.find? e = some caller ∧ caller.key = wake.key ∧ caller.IsPast
  awaited : ∀ {c caller w}, m.callers.find? c = some caller → caller.phase = .waiting w →
    ∃ wake, m.wakes.find? w.episode = some wake ∧ wake.key = caller.key

variable {m next : Manager}

theorem callersPlaced_start (deadline : Duration) : (start deadline).CallersPlaced := by
  constructor <;> simp [start]

theorem CallersPlaced.wakes_eq_none (hm : m.CallersPlaced) {c : CallerId} {caller : Caller}
    (hcaller : m.callers.find? c = some caller) (hphase : ¬caller.IsPast) :
    m.wakes.find? c = none := by
  cases hwake : m.wakes.find? c with
  | none => rfl
  | some wake =>
      obtain ⟨caller', hcaller', _, hpast⟩ := hm.beginner hwake
      rw [hcaller, Option.some.injEq] at hcaller'
      subst caller'
      exact absurd hpast hphase

theorem CallersPlaced.ofKeys (hm : m.CallersPlaced) (hcallers : next.callers = m.callers)
    (hkeys : ∀ e, (next.wakes.find? e).map Wake.key = (m.wakes.find? e).map Wake.key) :
    next.CallersPlaced := by
  constructor
  case beginner =>
    intro e wake hwake
    have hkey := hkeys e
    rw [hwake, Option.map_some, eq_comm, Option.map_eq_some_iff] at hkey
    obtain ⟨old, hold, hkey⟩ := hkey
    rw [hcallers, ← hkey]
    exact hm.beginner hold
  case awaited =>
    intro c caller w hcaller hphase
    rw [hcallers] at hcaller
    obtain ⟨old, hold, hkey⟩ := hm.awaited hcaller hphase
    have hkeyed := hkeys w.episode
    rw [hold, Option.map_some, Option.map_eq_some_iff] at hkeyed
    obtain ⟨wake, hwake, hsame⟩ := hkeyed
    exact ⟨wake, hwake, hsame.trans hkey⟩

theorem CallersPlaced.arrive (hm : m.CallersPlaced) {c : CallerId}
    (hfresh : m.callers.find? c = none) (key : String) (purpose : Purpose) (cancelled : Bool) :
    (m.arrive c key purpose cancelled).CallersPlaced := by
  constructor
  case beginner =>
    intro e wake hwake
    obtain ⟨caller, hcaller, hplaced⟩ := hm.beginner hwake
    have hne : e ≠ c := by
      rintro rfl
      rw [hfresh] at hcaller
      cases hcaller
    exact ⟨caller, by rw [find?_callers_arrive hfresh, if_neg hne, hcaller], hplaced⟩
  case awaited =>
    intro c' caller w hcaller hphase
    rw [find?_callers_arrive hfresh] at hcaller
    split at hcaller
    · cases hcaller
      exact absurd hphase (reception_ne_waiting m key purpose w)
    · exact hm.awaited hcaller hphase

/-- A caller goes on, but not back to the record of its key once it has begun a wake. -/
theorem CallersPlaced.setPhase (hm : m.CallersPlaced) {c : CallerId} {caller : Caller}
    {phase : CallerPhase} (hcaller : m.callers.find? c = some caller)
    (hpast : (m.wakes.find? c).isSome → phase ≠ .describing ∧ phase ≠ .found)
    (hwaits : ∀ w, phase = .waiting w →
      ∃ wake, m.wakes.find? w.episode = some wake ∧ wake.key = caller.key) :
    (m.setPhase c phase).CallersPlaced := by
  constructor
  case beginner =>
    intro e wake hwake
    obtain ⟨old, hold, hkey, hplaced⟩ := hm.beginner hwake
    rw [find?_callers_setPhase, hold]
    split
    next he =>
      subst e
      exact ⟨_, rfl, hkey, hpast (Option.isSome_of_eq_some hwake)⟩
    next => exact ⟨old, rfl, hkey, hplaced⟩
  case awaited =>
    intro c' caller' w hcaller' hphase
    rw [find?_callers_setPhase] at hcaller'
    split at hcaller'
    next hc =>
      rw [hc, hcaller, Option.map_some, Option.some.injEq] at hcaller'
      subst caller'
      exact hwaits w hphase
    next => exact hm.awaited hcaller' hphase

theorem CallersPlaced.answer (hm : m.CallersPlaced) {c : CallerId} {caller : Caller}
    (hcaller : m.callers.find? c = some caller) (a : Answer) :
    (m.setPhase c (.answered a)).CallersPlaced :=
  hm.setPhase hcaller (fun _ => by simp) (fun w hw => by cases hw)

theorem CallersPlaced.cancel (hm : m.CallersPlaced) (c : CallerId) :
    ({ m with callers := m.callers.modify c fun caller => { caller with cancelled := true } } :
      Manager).CallersPlaced := by
  constructor
  case beginner =>
    intro e wake hwake
    obtain ⟨old, hold, hplaced⟩ := hm.beginner hwake
    simp only [Table.find?_modify, hold]
    split
    · exact ⟨_, rfl, hplaced⟩
    · exact ⟨old, rfl, hplaced⟩
  case awaited =>
    intro c' caller w hcaller hphase
    simp only [Table.find?_modify] at hcaller
    split at hcaller
    · obtain ⟨old, hold, rfl⟩ := Option.map_eq_some_iff.mp hcaller
      obtain ⟨wake, hwake, hkey⟩ := hm.awaited hold hphase
      exact ⟨wake, hwake, hkey⟩
    · exact hm.awaited hcaller hphase

theorem CallersPlaced.begin (hm : m.CallersPlaced) {c : CallerId} {caller : Caller} {r : Record}
    (hcaller : m.callers.find? c = some caller) (hphase : caller.phase = .found)
    (timeout : Duration) :
    ((m.beginWake c caller.key r).setPhase c (.waiting ⟨c, m.now, timeout⟩)).CallersPlaced := by
  have hfresh : m.wakes.find? c = none :=
    hm.wakes_eq_none hcaller fun hpast => hpast.2 hphase
  have hwakes := fun e => find?_wakes_beginWake hfresh e caller.key r
  constructor
  case beginner =>
    intro e wake hwake
    rw [wakes_setPhase, hwakes] at hwake
    rw [find?_callers_setPhase, callers_beginWake]
    split at hwake
    next he =>
      subst e
      cases hwake
      rw [if_pos rfl, hcaller]
      exact ⟨_, rfl, rfl, by simp [Caller.IsPast]⟩
    next hne =>
      rw [if_neg hne]
      exact hm.beginner hwake
  case awaited =>
    intro c' caller' w hcaller' hwaits
    rw [find?_callers_setPhase, callers_beginWake] at hcaller'
    rw [wakes_setPhase]
    split at hcaller'
    next hc =>
      rw [hc, hcaller, Option.map_some, Option.some.injEq] at hcaller'
      subst caller'
      cases hwaits
      exact ⟨_, (hwakes c).trans (if_pos rfl), rfl⟩
    next =>
      obtain ⟨wake, hwake, hkey⟩ := hm.awaited hcaller' hwaits
      have hne : w.episode ≠ c := by
        intro hw
        rw [hw, hfresh] at hwake
        cases hwake
      exact ⟨wake, (hwakes _).trans ((if_neg hne).trans hwake), hkey⟩

/-! ## Steps and runs -/

theorem keys_setStage (m : Manager) (e : Episode) (stage : WakeStage) (e' : Episode) :
    ((m.setStage e stage).wakes.find? e').map Wake.key = (m.wakes.find? e').map Wake.key := by
  rw [find?_wakes_setStage]
  split <;> simp [Function.comp_def]

theorem Ends.keys {e : Episode} {wake : Wake} {result : Acknowledgement} {r : Record}
    (hends : m.Ends e wake result r next) (hwake : m.wakes.find? e = some wake) (e' : Episode) :
    (next.wakes.find? e').map Wake.key = (m.wakes.find? e').map Wake.key := by
  rw [hends.wakes_eq]
  split
  next he => rw [he, hwake, Option.map_some, Option.map_some]
  next => rfl

/-- The two invariants of wakes. -/
structure Consistent (m : Manager) : Prop where
  wakes : m.WakesHeld
  callers : m.CallersPlaced

theorem Consistent.step (hm : m.Consistent) {e : Event} (hstep : m.step e = some next) :
    next.Consistent := by
  obtain ⟨hwakes, hcallers⟩ := hm
  cases move_of_step hstep with
  | elapse d => exact ⟨hwakes.ofSame rfl rfl, hcallers.ofKeys rfl fun _ => rfl⟩
  | lookup hfresh => exact ⟨hwakes.ofSame rfl rfl, hcallers.arrive hfresh _ _ _⟩
  | ensure hfresh => exact ⟨hwakes.ofSame rfl rfl, hcallers.arrive hfresh _ _ _⟩
  | undescribed hcaller _ => exact ⟨hwakes.ofSame rfl rfl, hcallers.answer hcaller _⟩
  | @described c caller nodes hcaller hphase =>
      have hfresh : m.wakes.find? c = none :=
        hcallers.wakes_eq_none hcaller fun hpast => hpast.1 hphase
      have hdiscover : (m.discover caller.key nodes).CallersPlaced :=
        hcallers.ofKeys rfl fun _ => rfl
      refine ⟨(hwakes.discover caller.key nodes).ofSame rfl rfl, hdiscover.setPhase hcaller ?_ ?_⟩
      · simp [hfresh]
      · exact fun w hw => absurd hw (reception_ne_waiting _ _ _ w)
  | refuse hcaller _ _ _ => exact ⟨hwakes.ofSame rfl rfl, hcallers.answer hcaller _⟩
  | direct hcaller _ _ _ _ => exact ⟨hwakes.ofSame rfl rfl, hcallers.answer hcaller _⟩
  | @join c caller r timeout e hwants _ hwake =>
      obtain ⟨wake, hfind, hkey, _⟩ := hwakes.held hwants.record_eq hwake
      refine ⟨hwakes.ofSame rfl rfl, hcallers.setPhase hwants.caller_eq (fun _ => by simp) ?_⟩
      rintro w ⟨⟩
      exact ⟨wake, hfind, hkey⟩
  | @begin c caller r timeout hwants _ hwake =>
      have hfresh : m.wakes.find? c = none :=
        hcallers.wakes_eq_none hwants.caller_eq fun hpast => hpast.2 hwants.phase_eq
      exact ⟨(hwakes.beginWake hwants.record_eq hwake hfresh).ofSame rfl rfl,
        hcallers.begin hwants.caller_eq hwants.phase_eq timeout⟩
  | hear hcaller _ _ => exact ⟨hwakes.ofSame rfl rfl, hcallers.answer hcaller _⟩
  | wait _ _ _ => exact ⟨hwakes, hcallers⟩
  | @cancel c _ _ _ => exact ⟨hwakes.ofSame rfl rfl, hcallers.cancel c⟩
  | leave hcaller _ =>
      refine ⟨hwakes.ofSame rfl rfl, hcallers.setPhase hcaller (fun _ => by simp) ?_⟩
      rintro w ⟨⟩
  | resume hwake hstage | resumed hwake hstage | overrun hwake hstage | brokeDown hwake hstage =>
      exact ⟨hwakes.setStage hwake (by simp [hstage]) (by simp),
        hcallers.ofKeys rfl (keys_setStage m _ _)⟩
  | deliver hwake hstage =>
      obtain ⟨r, hends⟩ := hwakes.ends hwake hstage
      exact ⟨hwakes.afterEnd hwake hends, hcallers.ofKeys hends.callers_eq (hends.keys hwake)⟩
  | touch key =>
      exact ⟨hwakes.modify key (Record.keepsWake_touch m.now), hcallers.ofKeys rfl fun _ => rfl⟩
  | markPaused key =>
      exact ⟨hwakes.modify key Record.keepsWake_markPaused, hcallers.ofKeys rfl fun _ => rfl⟩

/-- An invariant may rely on the other two. -/
theorem Consistent.trail_induction {P : List Transition → Manager → Prop}
    (hstep : ∀ {ts m e next}, m.Consistent → P ts m → m.step e = some next →
      P (ts ++ [⟨m, e, next⟩]) next)
    {last : Manager} {es : List Event} (hm : m.Consistent) (hfirst : P [] m)
    (hrun : m.run es = some last) : P (m.trail es) last := by
  have hboth := Run.trail_induction (P := fun ts n => n.Consistent ∧ P ts n)
    (fun hboth hnext => ⟨hboth.1.step hnext, hstep hboth.1 hboth.2 hnext⟩) [] ⟨hm, hfirst⟩ hrun
  exact hboth.2

theorem Consistent.run_induction {P : Manager → Prop}
    (hstep : ∀ {m e next}, m.Consistent → P m → m.step e = some next → P next)
    {last : Manager} {es : List Event} (hm : m.Consistent) (hfirst : P m)
    (hrun : m.run es = some last) : P last :=
  hm.trail_induction (P := fun _ => P) hstep hfirst hrun

theorem Consistent.invariant {allowed : Event → Prop} {P : Manager → Prop}
    (hkept : ∀ {m e next}, m.Consistent → P m → allowed e → m.step e = some next → P next)
    {last : Manager} (hm : m.Consistent) (hreaches : Run.ReachesBy Manager.step allowed m last)
    (hfirst : P m) : last.Consistent ∧ P last :=
  hreaches.invariant (P := fun n => n.Consistent ∧ P n)
    (fun hboth hallowed hnext => ⟨hboth.1.step hnext, hkept hboth.1 hboth.2 hallowed hnext⟩)
    ⟨hm, hfirst⟩

theorem Consistent.reaches {allowed : Event → Prop} {last : Manager} (hm : m.Consistent)
    (hreaches : Run.ReachesBy Manager.step allowed m last) : last.Consistent :=
  (hm.invariant (P := fun _ => True) (fun _ _ _ _ => trivial) hreaches trivial).1

theorem consistent_start (deadline : Duration) : (start deadline).Consistent :=
  ⟨wakesHeld_start deadline, callersPlaced_start deadline⟩

theorem consistent_of_run {deadline : Duration} {es : List Event}
    (hrun : (start deadline).run es = some m) : m.Consistent :=
  Run.invariant (fun hm hstep => hm.step hstep) (consistent_start deadline) hrun

end Manager

end WakeRouter
