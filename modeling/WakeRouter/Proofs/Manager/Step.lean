import WakeRouter.Manager.Basic

/-!
# What one event does

`Manager.Move` lists the events with their guards and what becomes of the manager.  The
lemmas before it say what the parts of the manager are after each operation.
-/

namespace WakeRouter

namespace Manager

/-! ## Operations and parts -/

variable (m : Manager)

@[simp] theorem records_setPhase (c : CallerId) (phase : CallerPhase) :
    (m.setPhase c phase).records = m.records := rfl

@[simp] theorem wakes_setPhase (c : CallerId) (phase : CallerPhase) :
    (m.setPhase c phase).wakes = m.wakes := rfl

theorem find?_callers_setPhase (c c' : CallerId) (phase : CallerPhase) :
    (m.setPhase c phase).callers.find? c' =
      if c' = c then (m.callers.find? c').map fun caller => { caller with phase := phase }
      else m.callers.find? c' :=
  Table.find?_modify _ _ _ _

@[simp] theorem records_setStage (e : Episode) (stage : WakeStage) :
    (m.setStage e stage).records = m.records := rfl

@[simp] theorem callers_setStage (e : Episode) (stage : WakeStage) :
    (m.setStage e stage).callers = m.callers := rfl

theorem find?_wakes_setStage (e e' : Episode) (stage : WakeStage) :
    (m.setStage e stage).wakes.find? e' =
      if e' = e then (m.wakes.find? e').map fun wake => { wake with stage := stage }
      else m.wakes.find? e' :=
  Table.find?_modify _ _ _ _

@[simp] theorem records_publish (e : Episode) (outcome : WakeOutcome) :
    (m.publish e outcome).records = m.records := rfl

theorem find?_wakes_publish (e e' : Episode) (outcome : WakeOutcome) :
    (m.publish e outcome).wakes.find? e' =
      if e' = e then (m.wakes.find? e').map fun wake => { wake with outcome? := some outcome }
      else m.wakes.find? e' :=
  Table.find?_modify _ _ _ _

@[simp] theorem wakes_modify (key : String) (f : Record → Record) :
    (m.modify key f).wakes = m.wakes := rfl

theorem find?_records_modify (key key' : String) (f : Record → Record) :
    (m.modify key f).records.find? key' =
      if key' = key then (m.records.find? key').map f else m.records.find? key' :=
  Table.find?_modify _ _ _ _

theorem find?_touch {m : Manager} {key : String} {r : Record}
    (hr : m.records.find? key = some r) :
    (m.touch key).records.find? key = some (r.touch m.now) := by
  rw [touch, find?_records_modify, if_pos rfl, hr, Option.map_some]

theorem find?_touch_of_ne {m : Manager} {key key' : String} (hne : key' ≠ key) :
    (m.touch key).records.find? key' = m.records.find? key' := by
  rw [touch, find?_records_modify, if_neg hne]

@[simp] theorem wakes_discover (key : String) (nodes : List Node) :
    (m.discover key nodes).wakes = m.wakes := rfl

@[simp] theorem callers_discover (key : String) (nodes : List Node) :
    (m.discover key nodes).callers = m.callers := rfl

theorem find?_records_discover (key key' : String) (nodes : List Node) :
    (m.discover key nodes).records.find? key' =
      if key' = key then some ((m.records.find? key).getD (.ofNodes nodes m.now))
      else m.records.find? key' :=
  Table.find?_addNew _ _ _ _

@[simp] theorem callers_beginWake (c : CallerId) (key : String) (r : Record) :
    (m.beginWake c key r).callers = m.callers := rfl

theorem find?_records_beginWake (c : CallerId) (key key' : String) (r : Record) :
    (m.beginWake c key r).records.find? key' =
      if key' = key then (m.records.find? key').map (Record.beginWake c)
      else m.records.find? key' :=
  Table.find?_modify _ _ _ _

theorem find?_wakes_beginWake {m : Manager} {c : CallerId} (hfresh : m.wakes.find? c = none)
    (e : Episode) (key : String) (r : Record) :
    (m.beginWake c key r).wakes.find? e =
      if e = c then some ⟨key, r.handle, .spawned, none⟩ else m.wakes.find? e :=
  Table.find?_addNew_of_none hfresh _ _

theorem find?_callers_arrive {m : Manager} {c : CallerId} (hfresh : m.callers.find? c = none)
    (c' : CallerId) (key : String) (purpose : Purpose) (cancelled : Bool) :
    (m.arrive c key purpose cancelled).callers.find? c' =
      if c' = c then some ⟨key, purpose, cancelled, m.reception key purpose⟩
      else m.callers.find? c' :=
  Table.find?_addNew_of_none hfresh _ _

@[simp] theorem callers_finish (key : String) (result : Acknowledgement) :
    (m.finish key result).callers = m.callers := by
  unfold finish
  split
  · rfl
  split <;> rfl

/-! ## Events -/

/-- A caller who wants an address and finds a record with a machine that does not run. -/
structure WantsWake (m : Manager) (c : CallerId) (caller : Caller) (r : Record) : Prop where
  caller_eq : m.callers.find? c = some caller
  phase_eq : caller.phase = .found
  record_eq : m.records.find? caller.key = some r
  asleep : r.state ≠ .running
  known : r.state ≠ .notFound

/-- The events that can happen, and what each does. -/
inductive Move (m : Manager) : Event → Manager → Prop
  | elapse (d : Duration) : Move m (.elapse d) { m with now := m.now + d.nanos }
  | lookup {c : CallerId} {key : String} (hfresh : m.callers.find? c = none) :
      Move m (.lookup c key) (m.arrive c key .lookup false)
  | ensure {c : CallerId} {key : String} {timeout : Duration} {cancelled : Bool}
      (hfresh : m.callers.find? c = none) :
      Move m (.ensure c key timeout cancelled) (m.arrive c key (.ensure timeout) cancelled)
  | undescribed {c : CallerId} {caller : Caller} {cause : ControlError}
      (hcaller : m.callers.find? c = some caller) (hphase : caller.phase = .describing) :
      Move m (.described c (.error cause))
        (m.setPhase c (.answered (.error (.transport caller.key cause))))
  | described {c : CallerId} {caller : Caller} {nodes : List Node}
      (hcaller : m.callers.find? c = some caller) (hphase : caller.phase = .describing) :
      Move m (.described c (.ok nodes))
        ((m.discover caller.key nodes).setPhase c
          ((m.discover caller.key nodes).reception caller.key caller.purpose))
  | refuse {c : CallerId} {caller : Caller} {timeout : Duration}
      (hcaller : m.callers.find? c = some caller) (hphase : caller.phase = .found)
      (hpurpose : caller.purpose = .ensure timeout)
      (hrecord : ∀ r, m.records.find? caller.key = some r → r.state = .notFound) :
      Move m (.engage c) (m.setPhase c (.answered (.error (.notFound caller.key))))
  | direct {c : CallerId} {caller : Caller} {r : Record} {timeout : Duration}
      (hcaller : m.callers.find? c = some caller) (hphase : caller.phase = .found)
      (hpurpose : caller.purpose = .ensure timeout)
      (hrecord : m.records.find? caller.key = some r) (hstate : r.state = .running) :
      Move m (.engage c) (m.setPhase c (.answered (.address r.address)))
  | join {c : CallerId} {caller : Caller} {r : Record} {timeout : Duration} {e : Episode}
      (hwants : m.WantsWake c caller r) (hpurpose : caller.purpose = .ensure timeout)
      (hwake : r.wake? = some e) :
      Move m (.engage c) (m.setPhase c (.waiting ⟨e, m.now, timeout⟩))
  | begin {c : CallerId} {caller : Caller} {r : Record} {timeout : Duration}
      (hwants : m.WantsWake c caller r) (hpurpose : caller.purpose = .ensure timeout)
      (hwake : r.wake? = none) :
      Move m (.engage c)
        ((m.beginWake c caller.key r).setPhase c (.waiting ⟨c, m.now, timeout⟩))
  | hear {c : CallerId} {caller : Caller} {w : Wait} {a : Answer}
      (hcaller : m.callers.find? c = some caller) (hphase : caller.phase = .waiting w)
      (hverdict : m.verdict? caller w = some a) :
      Move m (.poll c) (m.setPhase c (.answered a))
  | wait {c : CallerId} {caller : Caller} {w : Wait}
      (hcaller : m.callers.find? c = some caller) (hphase : caller.phase = .waiting w)
      (hverdict : m.verdict? caller w = none) : Move m (.poll c) m
  | cancel {c : CallerId} {caller : Caller} (hcaller : m.callers.find? c = some caller)
      (hpending : caller.isPending) :
      Move m (.cancel c)
        { m with callers := m.callers.modify c fun caller => { caller with cancelled := true } }
  | leave {c : CallerId} {caller : Caller} (hcaller : m.callers.find? c = some caller)
      (hpending : caller.isPending) : Move m (.leave c) (m.setPhase c .left)
  | resume {e : Episode} {wake : Wake} (hwake : m.wakes.find? e = some wake)
      (hstage : wake.stage = .spawned) : Move m (.resume e) (m.setStage e (.resuming m.now))
  | resumed {e : Episode} {wake : Wake} {since : Instant} {result : Acknowledgement}
      (hwake : m.wakes.find? e = some wake) (hstage : wake.stage = .resuming since) :
      Move m (.resumed e result) (m.setStage e (.resumed result))
  | overrun {e : Episode} {wake : Wake} {since : Instant}
      (hwake : m.wakes.find? e = some wake) (hstage : wake.stage = .resuming since)
      (hlate : since + m.resumeDeadline.nanos ≤ m.now) :
      Move m (.overrun e) (m.setStage e (.resumed (.failed (.timeout m.resumeDeadline))))
  | brokeDown {e : Episode} {wake : Wake} {since : Instant} {report : String}
      (hwake : m.wakes.find? e = some wake) (hstage : wake.stage = .resuming since) :
      Move m (.brokeDown e report) (m.setStage e (.resumed (.failed (brokenDown report))))
  | deliver {e : Episode} {wake : Wake} {result : Acknowledgement}
      (hwake : m.wakes.find? e = some wake) (hstage : wake.stage = .resumed result) :
      Move m (.deliver e) ((m.setStage e .delivered).finish wake.key result)
  | touch (key : String) : Move m (.touch key) (m.modify key (Record.touch m.now))
  | markPaused (key : String) : Move m (.markPaused key) (m.modify key Record.markPaused)

theorem move_engage {m : Manager} {c : CallerId} {caller : Caller} {timeout : Duration}
    (hcaller : m.callers.find? c = some caller) (hphase : caller.phase = .found)
    (hpurpose : caller.purpose = .ensure timeout) :
    m.Move (.engage c) (m.engage c caller timeout) := by
  unfold engage
  cases hrecord : m.records.find? caller.key with
  | none => exact .refuse hcaller hphase hpurpose (by simp [hrecord])
  | some r =>
      simp only
      cases hstate : r.state with
      | notFound => exact .refuse hcaller hphase hpurpose (by simp [hrecord, hstate])
      | running => exact .direct hcaller hphase hpurpose hrecord hstate
      | unknown | paused | waking =>
          have hwants : m.WantsWake c caller r :=
            ⟨hcaller, hphase, hrecord, by simp [hstate], by simp [hstate]⟩
          cases hwake : r.wake? with
          | none => exact .begin hwants hpurpose hwake
          | some e => exact .join hwants hpurpose hwake

theorem move_look {m : Manager} {c : CallerId} {caller : Caller} {w : Wait}
    (hcaller : m.callers.find? c = some caller) (hphase : caller.phase = .waiting w) :
    m.Move (.poll c) (m.look c caller w) := by
  unfold look
  cases hverdict : m.verdict? caller w with
  | none => exact .wait hcaller hphase hverdict
  | some a => exact .hear hcaller hphase hverdict

theorem move_of_step {m next : Manager} {e : Event} (hstep : m.step e = some next) :
    m.Move e next := by
  cases e with
  | elapse d =>
      simp only [step, Option.some.injEq] at hstep
      exact hstep ▸ .elapse d
  | lookup c key =>
      simp only [step, Option.ite_none_left_eq_some, Option.some.injEq, Bool.not_eq_true] at hstep
      exact hstep.2 ▸ .lookup (Table.has_eq_false_iff.mp hstep.1)
  | ensure c key timeout cancelled =>
      simp only [step, Option.ite_none_left_eq_some, Option.some.injEq, Bool.not_eq_true] at hstep
      exact hstep.2 ▸ .ensure (Table.has_eq_false_iff.mp hstep.1)
  | described c answer =>
      simp only [step, bind, Option.bind_eq_some_iff] at hstep
      obtain ⟨caller, hcaller, hstep⟩ := hstep
      split at hstep
      next hphase =>
        simp only [Option.some.injEq] at hstep
        subst next
        cases answer with
        | error cause => exact .undescribed hcaller hphase
        | ok nodes => exact .described hcaller hphase
      next => cases hstep
  | engage c =>
      simp only [step, bind, Option.bind_eq_some_iff] at hstep
      obtain ⟨caller, hcaller, hstep⟩ := hstep
      split at hstep
      next hphase hpurpose =>
        simp only [Option.some.injEq] at hstep
        exact hstep ▸ move_engage hcaller hphase hpurpose
      next => cases hstep
  | poll c =>
      simp only [step, bind, Option.bind_eq_some_iff] at hstep
      obtain ⟨caller, hcaller, hstep⟩ := hstep
      split at hstep
      next hphase =>
        simp only [Option.some.injEq] at hstep
        exact hstep ▸ move_look hcaller hphase
      next => cases hstep
  | cancel c =>
      simp only [step, bind, Option.bind_eq_some_iff, Option.ite_none_right_eq_some,
        Option.some.injEq] at hstep
      obtain ⟨caller, hcaller, hpending, rfl⟩ := hstep
      exact .cancel hcaller hpending
  | leave c =>
      simp only [step, bind, Option.bind_eq_some_iff, Option.ite_none_right_eq_some,
        Option.some.injEq] at hstep
      obtain ⟨caller, hcaller, hpending, rfl⟩ := hstep
      exact .leave hcaller hpending
  | resume e =>
      simp only [step, bind, Option.bind_eq_some_iff] at hstep
      obtain ⟨wake, hwake, hstep⟩ := hstep
      split at hstep
      next hstage =>
        simp only [Option.some.injEq] at hstep
        exact hstep ▸ .resume hwake hstage
      next => cases hstep
  | resumed e result =>
      simp only [step, bind, Option.bind_eq_some_iff] at hstep
      obtain ⟨wake, hwake, hstep⟩ := hstep
      split at hstep
      next hstage =>
        simp only [Option.some.injEq] at hstep
        exact hstep ▸ .resumed hwake hstage
      next => cases hstep
  | overrun e =>
      simp only [step, bind, Option.bind_eq_some_iff] at hstep
      obtain ⟨wake, hwake, hstep⟩ := hstep
      split at hstep
      next hstage =>
        simp only [Option.ite_none_right_eq_some, Option.some.injEq] at hstep
        exact hstep.2 ▸ .overrun hwake hstage hstep.1
      next => cases hstep
  | brokeDown e report =>
      simp only [step, bind, Option.bind_eq_some_iff] at hstep
      obtain ⟨wake, hwake, hstep⟩ := hstep
      split at hstep
      next hstage =>
        simp only [Option.some.injEq] at hstep
        exact hstep ▸ .brokeDown hwake hstage
      next => cases hstep
  | deliver e =>
      simp only [step, bind, Option.bind_eq_some_iff] at hstep
      obtain ⟨wake, hwake, hstep⟩ := hstep
      split at hstep
      next hstage =>
        simp only [Option.some.injEq] at hstep
        exact hstep ▸ .deliver hwake hstage
      next => cases hstep
  | touch key =>
      simp only [step, Option.some.injEq] at hstep
      exact hstep ▸ .touch key
  | markPaused key =>
      simp only [step, Option.some.injEq] at hstep
      exact hstep ▸ .markPaused key

theorem WantsWake.engage_eq {m : Manager} {c : CallerId} {caller : Caller} {r : Record}
    (hwants : m.WantsWake c caller r) (timeout : Duration) :
    m.engage c caller timeout =
      match r.wake? with
      | some e => m.setPhase c (.waiting ⟨e, m.now, timeout⟩)
      | none => (m.beginWake c caller.key r).setPhase c (.waiting ⟨c, m.now, timeout⟩) := by
  have hasleep := hwants.asleep
  have hknown := hwants.known
  simp only [engage, hwants.record_eq]
  cases hstate : r.state with
  | running => exact absurd hstate hasleep
  | notFound => exact absurd hstate hknown
  | unknown | paused | waking => rfl

/-- What the list says can happen does happen. -/
theorem Move.step_eq {m next : Manager} {e : Event} (hmove : m.Move e next) :
    m.step e = some next := by
  cases hmove with
  | elapse | touch | markPaused => rfl
  | lookup hfresh | ensure hfresh => simp [step, Table.has, hfresh]
  | undescribed hcaller hphase | described hcaller hphase =>
      simp [step, hcaller, hphase, describe, reply]
  | @refuse c caller timeout hcaller hphase hpurpose hrecord =>
      have hengage : m.engage c caller timeout = m.reply c (.error (.notFound caller.key)) := by
        unfold engage
        cases hfind : m.records.find? caller.key with
        | none => rfl
        | some r => simp [hrecord r hfind]
      simp [step, hcaller, hphase, hpurpose, hengage, reply]
  | direct hcaller hphase hpurpose hrecord hstate =>
      simp [step, hcaller, hphase, hpurpose, engage, hrecord, hstate, reply]
  | join hwants hpurpose hwake | begin hwants hpurpose hwake =>
      simp [step, hwants.caller_eq, hwants.phase_eq, hpurpose, hwants.engage_eq, hwake]
  | hear hcaller hphase hverdict | wait hcaller hphase hverdict =>
      simp [step, hcaller, hphase, look, hverdict, reply]
  | cancel hcaller hpending | leave hcaller hpending => simp [step, hcaller, hpending]
  | resume hwake hstage | resumed hwake hstage | brokeDown hwake hstage | deliver hwake hstage =>
      simp [step, hwake, hstage]
  | overrun hwake hstage hlate => simp [step, hwake, hstage, hlate]

end Manager

end WakeRouter
