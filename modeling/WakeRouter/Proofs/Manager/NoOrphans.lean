import WakeRouter.Proofs.Manager.Records

/-!
# No wake is orphaned

A waking record holds the one wake of its key that is still to end, and a caller waits for
such a wake or for one whose outcome is out.  So every caller hears, and the error that a
paused record shows is that of the last wake of its key.
-/

namespace WakeRouter

/-- Why the call failed. -/
def Acknowledgement.cause? : Acknowledgement → Option ControlError
  | .done => none
  | .failed cause => some cause

namespace Record

/-! ## Entering and leaving a wake -/

/-- The machine is the same, and so is the time when it was last used. -/
structure SameUse (r r' : Record) : Prop where
  handle_eq : r'.handle = r.handle
  address_eq : r'.address = r.address
  lastActivity_eq : r'.lastActivity = r.lastActivity

structure EntersWake (r r' : Record) : Prop where
  asleep : r.state = .unknown ∨ r.state = .paused
  waking : r'.state = .waking
  holds : r'.wake? ≠ none
  error_eq : r'.wakeError? = none

/-- The record hears how the resume call of its wake ended. -/
structure LeavesWake (result : Acknowledgement) (r r' : Record) : Prop where
  waking : r.state = .waking
  state_eq : r'.state = if result = .done then .running else .paused
  error_eq : r'.wakeError? = result.cause?
  wake_eq : r'.wake? = none

variable {r : Record}

theorem sameUse_endWake (result : Acknowledgement) (r : Record) :
    r.SameUse (r.endWake result) := by
  cases result <;> exact ⟨rfl, rfl, rfl⟩

theorem leavesWake_endWake (hwaking : r.state = .waking) (result : Acknowledgement) :
    r.LeavesWake result (r.endWake result) := by
  cases result <;> exact ⟨hwaking, rfl, rfl, rfl⟩

end Record

namespace Manager

/-! ## Wakes that are under way -/

/-- The wakes of the key whose end has not reached the record. -/
def outstanding (m : Manager) (key : String) : List Episode :=
  m.wakes.keysWhere fun wake => wake.key = key ∧ wake.stage ≠ .delivered

variable {m next : Manager}

theorem isHeld_iff {e : Episode} :
    m.isHeld e ↔ ∃ key r, m.records.find? key = some r ∧ r.wake? = some e := by
  simp [isHeld, Table.mem_entries_iff]

theorem WakesHeld.isHeld_iff_outcome (hm : m.WakesHeld) {e : Episode} {wake : Wake}
    (hwake : m.wakes.find? e = some wake) : m.isHeld e ↔ wake.outcome? = none := by
  have houtcome := hm.outcome_iff hwake
  rw [isHeld_iff]
  constructor
  · rintro ⟨key, r, hr, he⟩
    obtain ⟨wake', hwake', _, hstage⟩ := hm.held hr he
    rw [hwake, Option.some.injEq] at hwake'
    subst wake'
    simpa using mt houtcome.mp hstage
  · intro hnone
    have hstage : wake.stage ≠ .delivered := by
      rw [Ne, ← houtcome, hnone]
      simp
    obtain ⟨r, hr, he⟩ := hm.undelivered hwake hstage
    exact ⟨wake.key, r, hr, he⟩

theorem WakesHeld.mem_outstanding_iff (hm : m.WakesHeld) {key : String} {e : Episode} :
    e ∈ m.outstanding key ↔ (m.records.find? key).bind Record.wake? = some e := by
  rw [outstanding, Table.mem_keysWhere, Option.bind_eq_some_iff]
  constructor
  · rintro ⟨wake, hwake, hkey⟩
    rw [decide_eq_true_eq] at hkey
    obtain ⟨rfl, hstage⟩ := hkey
    exact hm.undelivered hwake hstage
  · rintro ⟨r, hr, he⟩
    obtain ⟨wake, hwake, hkey, hstage⟩ := hm.held hr he
    exact ⟨wake, hwake, decide_eq_true ⟨hkey, hstage⟩⟩

theorem WakesHeld.outstanding_eq (hm : m.WakesHeld) (key : String) :
    m.outstanding key = ((m.records.find? key).bind Record.wake?).toList :=
  Table.keysWhere_eq_toList fun _ => hm.mem_outstanding_iff

theorem WakesHeld.state_eq_waking_iff (hm : m.WakesHeld) (key : String) :
    m.state? key = some .waking ↔ (m.outstanding key).length = 1 := by
  rw [hm.outstanding_eq, state?]
  cases hrecord : m.records.find? key with
  | none => simp
  | some r =>
      have hwaking := hm.waking_iff hrecord
      cases hwake : r.wake? <;> simp [hwake] at hwaking ⊢ <;> exact hwaking

/-- A caller waits for the wake that the record of its key holds, until the outcome of the
wake is out. -/
theorem Consistent.awaited_held (hm : m.Consistent) {c : CallerId} {caller : Caller} {w : Wait}
    (hcaller : m.callers.find? c = some caller) (hphase : caller.phase = .waiting w)
    (hnone : m.outcome? w.episode = none) :
    ∃ r, m.records.find? caller.key = some r ∧ r.state = .waking ∧ r.wake? = some w.episode := by
  obtain ⟨wake, hwake, hkey⟩ := hm.callers.awaited hcaller hphase
  rw [outcome?, hwake, Option.bind_some] at hnone
  have hstage : wake.stage ≠ .delivered := by
    rw [Ne, ← hm.wakes.outcome_iff hwake, hnone]
    simp
  obtain ⟨r, hr, he⟩ := hm.wakes.undelivered hwake hstage
  rw [hkey] at hr
  exact ⟨r, hr, (hm.wakes.waking_iff hr).mpr (by simp [he]), he⟩

/-! ## The last wake -/

/-- How the wakes of the key ended, in the order in which their ends reached the record. -/
def endings (key : String) (ts : List Transition) : List Acknowledgement :=
  ts.filterMap fun t => t.before.ending? key t.event

theorem endings_concat (key : String) (ts : List Transition) (t : Transition) :
    endings key (ts ++ [t]) = endings key ts ++ (t.before.ending? key t.event).toList := by
  unfold endings
  rw [List.filterMap_append]
  cases h : t.before.ending? key t.event <;> simp [h]

/-- The error in the record is that of the last wake, and there is none unless the record is
paused. -/
structure ShowsError (r : Record) (last? : Option Acknowledgement) : Prop where
  last : r.state ≠ .waking → r.wakeError? = last?.bind Acknowledgement.cause?
  paused : r.state ≠ .paused → r.wakeError? = none

structure ErrorsShown (ts : List Transition) (m : Manager) : Prop where
  absent : ∀ {key}, m.records.find? key = none → endings key ts = []
  shown : ∀ {key r}, m.records.find? key = some r → ShowsError r (endings key ts).getLast?

theorem showsError_ofNodes (nodes : List Node) (now : Instant) :
    ShowsError (.ofNodes nodes now) none := by
  constructor <;> cases nodes <;> simp [Record.ofNodes, Record.ofNode, Record.notFound]

theorem showsError_endWake (r : Record) (result : Acknowledgement) :
    ShowsError (r.endWake result) (some result) := by
  constructor <;> cases result <;> simp [Record.endWake, Acknowledgement.cause?]

theorem ShowsError.markPaused {r : Record} {last? : Option Acknowledgement}
    (hr : ShowsError r last?) : ShowsError r.markPaused last? := by
  obtain ⟨hlast, hpaused⟩ := hr
  constructor
  case last =>
    unfold Record.markPaused
    cases hstate : r.state <;> simp_all
  case paused =>
    unfold Record.markPaused
    cases hstate : r.state <;> simp_all

theorem ErrorsShown.step {ts : List Transition} (hm : m.WakesHeld) (herrors : ErrorsShown ts m)
    {e : Event} (hstep : m.step e = some next) : ErrorsShown (ts ++ [⟨m, e, next⟩]) next := by
  have hconcat := fun key => endings_concat key ts ⟨m, e, next⟩
  constructor
  case absent =>
    intro key hnext
    have hchange := recordChange_of_step hm hstep key
    rw [hnext] at hchange
    generalize hbefore : m.records.find? key = before at hchange
    cases hchange with
    | kept hending =>
        rw [hconcat, hending, herrors.absent hbefore]
        rfl
  case shown =>
    intro key r' hnext
    have hchange := recordChange_of_step hm hstep key
    rw [hnext] at hchange
    generalize hbefore : m.records.find? key = before at hchange
    rw [hconcat]
    cases hchange with
    | kept hending =>
        rw [hending, Option.toList_none, List.append_nil]
        exact herrors.shown hbefore
    | discovered nodes =>
        rw [herrors.absent hbefore]
        exact showsError_ofNodes nodes m.now
    | begun c _ => constructor <;> simp [Record.beginWake]
    | ended hending _ _ =>
        rw [hending, Option.toList_some, List.getLast?_concat]
        exact showsError_endWake _ _
    | touched r =>
        obtain ⟨hlast, hpaused⟩ := herrors.shown hbefore
        exact ⟨by simpa [ending?, Record.touch] using hlast, hpaused⟩
    | paused r =>
        have hr := (herrors.shown hbefore).markPaused
        simpa [ending?] using hr

theorem errorsShown_of_run {deadline : Duration} {es : List Event}
    (hrun : (start deadline).run es = some m) :
    ErrorsShown ((start deadline).trail es) m := by
  apply (consistent_start deadline).trail_induction (P := ErrorsShown) _ _ hrun
  · intro ts m e next hm herrors hstep
    exact herrors.step hm.wakes hstep
  · constructor <;> simp [start, endings]

/-! ## The law -/

/-- In every state that a run leads to, a record holds a wake just while it is waking, the
wake is then the one of its key that is still to end, each wake is held until its outcome is
out, and so is the wake that a caller waits for.  A record that is not paused shows no
error, and a paused one that of the last wake of its key. -/
theorem no_orphaned_wake {deadline : Duration} {es : List Event}
    (hrun : (start deadline).run es = some m) :
    (∀ key r, m.records.find? key = some r →
      (r.wake?.isSome ↔ r.state = .waking) ∧ m.outstanding key = r.wake?.toList) ∧
    (∀ key, m.state? key = some .waking ↔ (m.outstanding key).length = 1) ∧
    (∀ e wake, m.wakes.find? e = some wake → (m.isHeld e ↔ wake.outcome? = none)) ∧
    (∀ c caller w, m.callers.find? c = some caller → caller.phase = .waiting w →
      (∃ r, m.records.find? caller.key = some r ∧ r.state = .waking ∧
        r.wake? = some w.episode) ∨ (m.outcome? w.episode).isSome) ∧
    (∀ c caller w, m.callers.find? c = some caller → caller.phase = .waiting w →
      m.outcome? w.episode = none → m.isHeld w.episode) ∧
    (∀ key r, m.records.find? key = some r → r.wakeError? =
      if r.state = .paused then
        (endings key ((start deadline).trail es)).getLast?.bind Acknowledgement.cause?
      else none) := by
  have hm := consistent_of_run hrun
  refine ⟨?_, hm.wakes.state_eq_waking_iff, ?_, ?_, ?_, ?_⟩
  · intro key r hr
    refine ⟨(hm.wakes.waking_iff hr).symm, ?_⟩
    rw [hm.wakes.outstanding_eq, hr]
    rfl
  · intro e wake hwake
    exact hm.wakes.isHeld_iff_outcome hwake
  · intro c caller w hcaller hphase
    cases houtcome : m.outcome? w.episode with
    | some outcome => exact .inr rfl
    | none => exact .inl (hm.awaited_held hcaller hphase houtcome)
  · intro c caller w hcaller hphase hnone
    obtain ⟨r, hr, _, he⟩ := hm.awaited_held hcaller hphase hnone
    exact isHeld_iff.mpr ⟨caller.key, r, hr, he⟩
  · intro key r hr
    obtain ⟨hlast, hpaused⟩ := (errorsShown_of_run hrun).shown hr
    split
    next hstate => exact hlast (by simp [hstate])
    next hstate => exact hpaused hstate

/-- The second wake of one machine fails, after a pause was noted in its midst; another
machine is still being woken. -/
def failedRetry : List Event :=
  [.ensure 1 "alpha" (.ofSeconds 5) false,
    .described 1 (.ok [⟨"vm-1", "10.0.0.5", "paused", ["alpha"]⟩]),
    .engage 1, .resume 1, .resumed 1 .done, .deliver 1, .markPaused "alpha",
    .ensure 2 "alpha" (.ofSeconds 5) false, .engage 2, .resume 2, .markPaused "alpha",
    .resumed 2 (.failed (.remote "no capacity")), .deliver 2,
    .ensure 3 "beta" (.ofSeconds 5) false,
    .described 3 (.ok [⟨"vm-2", "10.0.0.6", "paused", ["beta"]⟩]), .engage 3]

theorem no_orphaned_wake_failedRetry :
    ∃ m r, (start defaultResumeDeadline).run failedRetry = some m ∧
      m.records.find? "alpha" = some r ∧ r.wakeError? = some (.remote "no capacity") ∧
      m.outstanding "alpha" = [] ∧ m.outstanding "beta" = [3] ∧ m.isHeld 3 := by
  obtain ⟨m, hrun⟩ : ∃ m, (start defaultResumeDeadline).run failedRetry = some m := ⟨_, rfl⟩
  obtain ⟨hrecords, _, _, _, hawaited, herror⟩ := no_orphaned_wake hrun
  cases hrun
  refine ⟨_, _, rfl, rfl, ?_, ?_, ?_, ?_⟩
  · exact herror "alpha" _ rfl
  · exact (hrecords "alpha" _ rfl).2
  · exact (hrecords "beta" _ rfl).2
  · exact hawaited 3 _ _ rfl rfl rfl

end Manager

end WakeRouter
