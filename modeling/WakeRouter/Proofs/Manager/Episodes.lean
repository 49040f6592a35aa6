import WakeRouter.Proofs.Manager.NoOrphans

/-!
# How wakes and callers change

`Manager.WakeChange` and `Manager.CallerMove` list what one event does to one wake and to one
caller.  An outcome that is out stays as it is, and so does an answer.
-/

namespace WakeRouter.Manager

variable {m next : Manager}

/-! ## Wakes -/

/-- What an event can do to a wake. -/
inductive WakeChange (m : Manager) (e : Episode) : Event → Option Wake → Option Wake → Prop
  | kept {event : Event} (hother : event ≠ .resume e) (wake? : Option Wake) :
      WakeChange m e event wake? wake?
  | begun (key handle : String) :
      WakeChange m e (.engage e) none (some ⟨key, handle, .spawned, none⟩)
  | resuming {wake : Wake} (hstage : wake.stage = .spawned) :
      WakeChange m e (.resume e) (some wake) (some { wake with stage := .resuming m.now })
  | resumed {event : Event} {wake : Wake} {since : Instant} (result : Acknowledgement)
      (hother : event ≠ .resume e) (hstage : wake.stage = .resuming since) :
      WakeChange m e event (some wake) (some { wake with stage := .resumed result })
  | delivered {wake : Wake} {result : Acknowledgement} (hstage : wake.stage = .resumed result)
      (address : String) :
      WakeChange m e (.deliver e) (some wake)
        (some { wake with stage := .delivered, outcome? := some (.ofResult address result) })

theorem wakeChange_setStage {event : Event} {e : Episode} {wake : Wake} {stage : WakeStage}
    (hwake : m.wakes.find? e = some wake) (hother : ∀ e', e' ≠ e → event ≠ .resume e')
    (hchange : m.WakeChange e event (some wake) (some { wake with stage := stage }))
    (e' : Episode) :
    m.WakeChange e' event (m.wakes.find? e') ((m.setStage e stage).wakes.find? e') := by
  rw [find?_wakes_setStage]
  split
  next he =>
    subst e'
    rw [hwake, Option.map_some]
    exact hchange
  next he => exact .kept (hother e' he) _

theorem wakeChange_of_step (hm : m.Consistent) {event : Event}
    (hstep : m.step event = some next) (e : Episode) :
    m.WakeChange e event (m.wakes.find? e) (next.wakes.find? e) := by
  cases move_of_step hstep with
  | @begin c caller r timeout hwants _ _ =>
      have hfresh : m.wakes.find? c = none :=
        hm.callers.wakes_eq_none hwants.caller_eq fun hpast => hpast.2 hwants.phase_eq
      rw [wakes_setPhase, find?_wakes_beginWake hfresh]
      split
      next he =>
        subst e
        rw [hfresh]
        exact .begun caller.key r.handle
      next => exact .kept (by simp) _
  | resume hwake hstage =>
      apply wakeChange_setStage hwake _ (.resuming hstage)
      rintro e' hne ⟨⟩
      exact hne rfl
  | resumed hwake hstage | overrun hwake hstage | brokeDown hwake hstage =>
      exact wakeChange_setStage hwake (by simp) (.resumed _ (by simp) hstage) e
  | @deliver e' wake result hwake hstage =>
      obtain ⟨r, hends⟩ := hm.wakes.ends hwake hstage
      rw [hends.wakes_eq]
      split
      next he =>
        subst e
        rw [hwake]
        exact .delivered hstage r.address
      next => exact .kept (by simp) _
  | elapse | lookup | ensure | undescribed | described | refuse | direct | join | hear | wait
  | cancel | leave | touch | markPaused => exact .kept (by simp) _

theorem wake_of_step (hm : m.Consistent) {event : Event} (hstep : m.step event = some next)
    {e : Episode} {wake : Wake} (hwake : m.wakes.find? e = some wake) :
    ∃ wake', next.wakes.find? e = some wake' ∧ wake'.key = wake.key := by
  have hchange := wakeChange_of_step hm hstep e
  rw [hwake] at hchange
  generalize next.wakes.find? e = after at hchange
  cases hchange <;> exact ⟨_, rfl, rfl⟩

/-- An outcome that is out stays as it is. -/
theorem outcome?_of_step (hm : m.Consistent) {event : Event} (hstep : m.step event = some next)
    {e : Episode} {outcome : WakeOutcome} (houtcome : m.outcome? e = some outcome) :
    next.outcome? e = some outcome := by
  obtain ⟨wake, hwake, hwakeOutcome⟩ := Option.bind_eq_some_iff.mp houtcome
  have hchange := wakeChange_of_step hm hstep e
  have hdelivered := (hm.wakes.outcome_iff hwake).mp (by simp [hwakeOutcome])
  rw [hwake] at hchange
  unfold outcome?
  generalize next.wakes.find? e = after at hchange
  cases hchange with
  | kept => exact hwakeOutcome
  | resuming => exact hwakeOutcome
  | resumed => exact hwakeOutcome
  | delivered hstage =>
      rw [hdelivered] at hstage
      cases hstage

/-! ## Callers -/

/-- What an event does to a caller. -/
inductive CallerMove (m : Manager) (c : CallerId) : Event → Option Caller → Option Caller → Prop
  | kept (event : Event) (caller? : Option Caller) : CallerMove m c event caller? caller?
  | looks (key : String) :
      CallerMove m c (.lookup c key) none
        (some ⟨key, .lookup, false, m.reception key .lookup⟩)
  | comes (key : String) (timeout : Duration) (cancelled : Bool) :
      CallerMove m c (.ensure c key timeout cancelled) none
        (some ⟨key, .ensure timeout, cancelled, m.reception key (.ensure timeout)⟩)
  | undescribed {caller : Caller} (cause : ControlError) (hphase : caller.phase = .describing) :
      CallerMove m c (.described c (.error cause)) (some caller)
        (some { caller with phase := .answered (.error (.transport caller.key cause)) })
  | described {caller : Caller} (nodes : List Node) (hphase : caller.phase = .describing) :
      CallerMove m c (.described c (.ok nodes)) (some caller)
        (some { caller with
          phase := (m.discover caller.key nodes).reception caller.key caller.purpose })
  | refused {caller : Caller} (hphase : caller.phase = .found)
      (hrecord : ∀ r, m.records.find? caller.key = some r → r.state = .notFound) :
      CallerMove m c (.engage c) (some caller)
        (some { caller with phase := .answered (.error (.notFound caller.key)) })
  | direct {caller : Caller} {r : Record} (hphase : caller.phase = .found)
      (hrecord : m.records.find? caller.key = some r) (hstate : r.state = .running) :
      CallerMove m c (.engage c) (some caller)
        (some { caller with phase := .answered (.address r.address) })
  | waits {caller : Caller} {timeout : Duration} (e : Episode) (hphase : caller.phase = .found)
      (hpurpose : caller.purpose = .ensure timeout) :
      CallerMove m c (.engage c) (some caller)
        (some { caller with phase := .waiting ⟨e, m.now, timeout⟩ })
  | hears {caller : Caller} {w : Wait} {a : Answer} (hphase : caller.phase = .waiting w)
      (hverdict : m.verdict? caller w = some a) :
      CallerMove m c (.poll c) (some caller) (some { caller with phase := .answered a })
  | cancelled {caller : Caller} (hpending : caller.isPending) :
      CallerMove m c (.cancel c) (some caller) (some { caller with cancelled := true })
  | leaves {caller : Caller} (hpending : caller.isPending) :
      CallerMove m c (.leave c) (some caller) (some { caller with phase := .left })

theorem callerMove_setPhase {event : Event} {c c' : CallerId} {caller : Caller}
    {phase : CallerPhase} (hcaller : m.callers.find? c = some caller)
    (hmove : m.CallerMove c event (some caller) (some { caller with phase := phase })) :
    m.CallerMove c' event (m.callers.find? c') ((m.setPhase c phase).callers.find? c') := by
  rw [find?_callers_setPhase]
  split
  next hc =>
    rw [hc, hcaller, Option.map_some]
    exact hmove
  next => exact .kept event _

theorem callerMove_arrive {event : Event} {c : CallerId} {key : String} {purpose : Purpose}
    {cancelled : Bool} (hfresh : m.callers.find? c = none)
    (hmove : m.CallerMove c event none
      (some ⟨key, purpose, cancelled, m.reception key purpose⟩)) (c' : CallerId) :
    m.CallerMove c' event (m.callers.find? c')
      ((m.arrive c key purpose cancelled).callers.find? c') := by
  rw [find?_callers_arrive hfresh]
  split
  next hc =>
    rw [hc, hfresh]
    exact hmove
  next => exact .kept event _

theorem callerMove_of_step {event : Event} (hstep : m.step event = some next) (c : CallerId) :
    m.CallerMove c event (m.callers.find? c) (next.callers.find? c) := by
  cases move_of_step hstep with
  | lookup hfresh => exact callerMove_arrive hfresh (.looks _) c
  | ensure hfresh => exact callerMove_arrive hfresh (.comes _ _ _) c
  | undescribed hcaller hphase => exact callerMove_setPhase hcaller (.undescribed _ hphase)
  | described hcaller hphase => exact callerMove_setPhase hcaller (.described _ hphase)
  | refuse hcaller hphase _ hrecord => exact callerMove_setPhase hcaller (.refused hphase hrecord)
  | direct hcaller hphase _ hrecord hstate =>
      exact callerMove_setPhase hcaller (.direct hphase hrecord hstate)
  | join hwants hpurpose _ | begin hwants hpurpose _ =>
      exact callerMove_setPhase hwants.caller_eq (.waits _ hwants.phase_eq hpurpose)
  | hear hcaller hphase hverdict => exact callerMove_setPhase hcaller (.hears hphase hverdict)
  | leave hcaller hpending => exact callerMove_setPhase hcaller (.leaves hpending)
  | @cancel c' caller hcaller hpending =>
      rw [Table.find?_modify]
      split
      next hc =>
        rw [hc, hcaller, Option.map_some]
        exact .cancelled hpending
      next => exact .kept _ _
  | deliver =>
      rw [callers_finish, callers_setStage]
      exact .kept _ _
  | elapse | wait | resume | resumed | overrun | brokeDown | touch | markPaused => exact .kept _ _

/-- What can become of a caller that has come. -/
inductive CallerChange (m : Manager) (caller : Caller) : Caller → Prop
  | kept : CallerChange m caller caller
  | looked (hlooks : ¬caller.IsPast) (phase : CallerPhase) :
      CallerChange m caller { caller with phase := phase }
  | heard {w : Wait} {a : Answer} (hphase : caller.phase = .waiting w)
      (hverdict : m.verdict? caller w = some a) :
      CallerChange m caller { caller with phase := .answered a }
  | cancelled (hpending : caller.isPending) :
      CallerChange m caller { caller with cancelled := true }
  | left (hpending : caller.isPending) : CallerChange m caller { caller with phase := .left }

theorem callerChange_of_step {event : Event} (hstep : m.step event = some next) {c : CallerId}
    {caller : Caller} (hcaller : m.callers.find? c = some caller) :
    ∃ caller', next.callers.find? c = some caller' ∧ m.CallerChange caller caller' := by
  have hmove := callerMove_of_step hstep c
  rw [hcaller] at hmove
  generalize next.callers.find? c = after at hmove
  cases hmove with
  | kept => exact ⟨caller, rfl, .kept⟩
  | undescribed _ hphase | described _ hphase =>
      exact ⟨_, rfl, .looked (fun hpast => hpast.1 hphase) _⟩
  | refused hphase | direct hphase | waits _ hphase =>
      exact ⟨_, rfl, .looked (fun hpast => hpast.2 hphase) _⟩
  | hears hphase hverdict => exact ⟨_, rfl, .heard hphase hverdict⟩
  | cancelled hpending => exact ⟨_, rfl, .cancelled hpending⟩
  | leaves hpending => exact ⟨_, rfl, .left hpending⟩

/-- Callers stay, and want what they wanted. -/
theorem find?_caller_of_step {event : Event} (hstep : m.step event = some next) {c : CallerId}
    {caller : Caller} (hcaller : m.callers.find? c = some caller) :
    ∃ caller', next.callers.find? c = some caller' ∧ caller'.key = caller.key ∧
      caller'.purpose = caller.purpose := by
  obtain ⟨caller', hcaller', hchange⟩ := callerChange_of_step hstep hcaller
  refine ⟨caller', hcaller', ?_⟩
  cases hchange <;> exact ⟨rfl, rfl⟩

theorem find?_caller_of_reaches {allowed : Event → Prop} {last : Manager}
    (hreaches : Run.ReachesBy step allowed m last) {c : CallerId} {caller : Caller}
    (hcaller : m.callers.find? c = some caller) :
    ∃ caller', last.callers.find? c = some caller' ∧ caller'.key = caller.key ∧
      caller'.purpose = caller.purpose := by
  refine hreaches.invariant (P := fun n => ∃ caller', n.callers.find? c = some caller' ∧
    caller'.key = caller.key ∧ caller'.purpose = caller.purpose) ?_ ⟨caller, hcaller, rfl, rfl⟩
  rintro n event n' ⟨old, hold, hkey, hpurpose⟩ _ hstep
  obtain ⟨new, hnew, hkey', hpurpose'⟩ := find?_caller_of_step hstep hold
  exact ⟨new, hnew, hkey'.trans hkey, hpurpose'.trans hpurpose⟩

/-- A caller that has been answered or went away stays as it is. -/
theorem settled_of_step {event : Event} (hstep : m.step event = some next) {c : CallerId}
    {caller : Caller} (hcaller : m.callers.find? c = some caller)
    (hsettled : caller.isPending = false) : next.callers.find? c = some caller := by
  obtain ⟨caller', hcaller', hchange⟩ := callerChange_of_step hstep hcaller
  rw [hcaller']
  cases hchange with
  | kept => rfl
  | looked hlooks =>
      have hpast : caller.IsPast := by
        unfold Caller.IsPast
        unfold Caller.isPending at hsettled
        cases hphase : caller.phase <;> simp_all
      exact absurd hpast hlooks
  | heard hwaits _ => simp [Caller.isPending, hwaits] at hsettled
  | cancelled hpending | left hpending =>
      rw [hsettled] at hpending
      cases hpending

theorem settled_of_run {last : Manager} {es : List Event} {c : CallerId} {caller : Caller}
    (hrun : m.run es = some last) (hcaller : m.callers.find? c = some caller)
    (hsettled : caller.isPending = false) : last.callers.find? c = some caller :=
  Run.invariant (P := fun n => n.callers.find? c = some caller)
    (fun hcaller hstep => settled_of_step hstep hcaller hsettled) hcaller hrun

end WakeRouter.Manager
