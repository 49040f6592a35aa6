import WakeRouter.Proofs.Manager.Coalescing
import WakeRouter.Proofs.Manager.Settling
import WakeRouter.Proofs.Run

/-!
# Every wake ends

A wake is followed from the step in which the record of its key begins to wake.  Its call begins
at once, comes back or is given up when its time is over, and the record hears how it ended.
`Transition.Progress` says how far a wake has come at each stage, and which steps took it there.
Nothing in it depends on the callers of the wake.

Time is virtual: it passes only when the manager has nothing to do, and stops where the manager
has something to do again.  Two consequences are all that is needed of this: time does not pass
while a call is still to begin, and not beyond the time of a call.
-/

namespace WakeRouter

/-- Whether the clock may come to show the instant before more is done for the wake. -/
def Wake.letsPass (wake : Wake) (deadline : Duration) (now : Instant) : Bool :=
  match wake.stage with
  | .spawned => false
  | .resuming since => now ≤ since + deadline.nanos
  | .resumed _ | .delivered => true

namespace Manager

variable {m next : Manager}

/-! ## The clock -/

/-- If time passes in the step, all wakes let it pass. -/
def Transition.isTimely (t : Transition) : Bool :=
  match t.event with
  | .elapse _ => t.after.wakes.entries.all fun entry =>
      entry.2.letsPass t.after.resumeDeadline t.after.now
  | _ => true

@[simp] theorem now_finish (m : Manager) (key : String) (result : Acknowledgement) :
    (m.finish key result).now = m.now := by
  unfold finish
  split
  · rfl
  split <;> rfl

@[simp] theorem resumeDeadline_finish (m : Manager) (key : String) (result : Acknowledgement) :
    (m.finish key result).resumeDeadline = m.resumeDeadline := by
  unfold finish
  split
  · rfl
  split <;> rfl

theorem resumeDeadline_of_step {event : Event} (hstep : m.step event = some next) :
    next.resumeDeadline = m.resumeDeadline := by
  cases move_of_step hstep with
  | deliver => exact resumeDeadline_finish _ _ _
  | elapse | lookup | ensure | undescribed | described | refuse | direct | join | begin | hear
  | wait | cancel | leave | resume | resumed | overrun | brokeDown | touch | markPaused => rfl

theorem letsPass_of_step {event : Event} (hstep : m.step event = some next)
    (htimely : Transition.isTimely ⟨m, event, next⟩) :
    next.now = m.now ∨ ∀ {e wake}, next.wakes.find? e = some wake →
      m.wakes.find? e = some wake ∧ wake.letsPass m.resumeDeadline next.now := by
  cases move_of_step hstep with
  | elapse d =>
      right
      intro e wake hwake
      have hall := List.all_eq_true.mp htimely _ (Table.mem_entries_iff.mpr hwake)
      exact ⟨hwake, hall⟩
  | deliver => exact .inl (now_finish _ _ _)
  | lookup | ensure | undescribed | described | refuse | direct | join | begin | hear | wait
  | cancel | leave | resume | resumed | overrun | brokeDown | touch | markPaused => exact .inl rfl

/-! ## The steps of a wake -/

/-- Whether the record of the key is waking before the step and not after it. -/
def Transition.leavesWaking (key : String) (t : Transition) : Bool :=
  t.before.state? key = some .waking ∧ t.after.state? key ≠ some .waking

/-- In the step the resume call of the wake ends, that was to begin at the instant: it is
answered, breaks down or is given up. -/
inductive Transition.EndsCall (t : Transition) (e : Episode) (deadline : Duration)
    (began : Instant) : Acknowledgement → Prop
  | answered {result : Acknowledgement} (hevent : t.event = .resumed e result)
      (hintime : t.before.now ≤ began + deadline.nanos) : EndsCall t e deadline began result
  | brokeDown {report : String} (hevent : t.event = .brokeDown e report)
      (hintime : t.before.now ≤ began + deadline.nanos) :
      EndsCall t e deadline began (.failed (brokenDown report))
  | overran (hevent : t.event = .overrun e) (hlate : t.before.now = began + deadline.nanos) :
      EndsCall t e deadline began (.failed (.timeout deadline))

/-- In the step the record of the key, which is given as it is then, hears how the resume call
of the wake ended. -/
structure Transition.Concludes (t : Transition) (e : Episode) (key : String)
    (result : Acknowledgement) (r : Record) : Prop where
  event_eq : t.event = .deliver e
  leaves : t.leavesWaking key
  record_eq : t.after.records.find? key = some r
  state_eq : r.state = if result = .done then .running else .paused
  error_eq : r.wakeError? = result.cause?
  wake_eq : r.wake? = none
  outcome_eq : t.after.outcome? e = some (.ofResult r.address result)

/-- The record of the key is waking after each of the steps, and none delivers the end of the
wake. -/
def StaysWaking (e : Episode) (key : String) (ts : List Transition) : Prop :=
  ∀ t ∈ ts, t.after.state? key = some .waking ∧ t.event ≠ .deliver e

/-- How far the wake has come that began in the step, given the steps since then. -/
inductive Transition.Progress (began : Transition) (e : Episode) (key : String)
    (deadline : Duration) (now : Instant) : List Transition → WakeStage → Prop
  | spawned {since : List Transition} (hwaking : StaysWaking e key since)
      (hnow : now = began.before.now) : Progress began e key deadline now since .spawned
  | resuming {since : List Transition} (hwaking : StaysWaking e key since)
      (hintime : now ≤ began.before.now + deadline.nanos) :
      Progress began e key deadline now since (.resuming began.before.now)
  | resumed {since : List Transition} {result : Acknowledgement}
      (hwaking : StaysWaking e key since)
      (hcall : ∃ t ∈ since, t.EndsCall e deadline began.before.now result) :
      Progress began e key deadline now since (.resumed result)
  | delivered {since later : List Transition} {last : Transition} {result : Acknowledgement}
      {r : Record} (hwaking : StaysWaking e key since)
      (hcall : ∃ t ∈ since, t.EndsCall e deadline began.before.now result)
      (hends : last.Concludes e key result r) (honce : ∀ t ∈ later, t.event ≠ .deliver e) :
      Progress began e key deadline now (since ++ last :: later) .delivered

theorem StaysWaking.concat {e : Episode} {key : String} {ts : List Transition} {t : Transition}
    (hwaking : StaysWaking e key ts) (hstate : t.after.state? key = some .waking)
    (hother : t.event ≠ .deliver e) : StaysWaking e key (ts ++ [t]) := by
  intro s hs
  rcases List.mem_append.mp hs with hs | hs
  · exact hwaking s hs
  · obtain rfl := List.mem_singleton.mp hs
    exact ⟨hstate, hother⟩

theorem Transition.leavesWaking_iff {t : Transition} {key : String} :
    t.leavesWaking key ↔ t.before.state? key = some .waking ∧ t.after.state? key ≠ some .waking :=
  decide_eq_true_iff

/-- Who makes the record of a key begin to wake gives its name to a wake of the key. -/
theorem begins_of_entersWaking (hm : m.Consistent) {event : Event}
    (hstep : m.step event = some next) {key : String}
    (henters : Transition.entersWaking key ⟨m, event, next⟩) :
    ∃ e wake, event = .engage e ∧ next.wakes.find? e = some wake ∧ wake.key = key ∧
      wake.stage = .spawned := by
  obtain ⟨hbefore, hafter⟩ := Transition.entersWaking_iff.mp henters
  rcases begun_of_step hm hstep key with ⟨_, hstate⟩ | ⟨e, hbegun, _, _⟩
  · exact absurd (hstate hafter) hbefore
  · have hmem : e ∈ next.begun key := by simp [hbegun]
    obtain ⟨wake, hwake, hkey⟩ := Table.mem_keysWhere.mp hmem
    have hfresh : e ∉ m.begun key := by
      have hnodup := next.wakes.nodup_keysWhere fun wake => wake.key = key
      rw [show next.wakes.keysWhere _ = m.begun key ++ [e] from hbegun] at hnodup
      intro hold
      exact (List.nodup_append.mp hnodup).2.2 e hold e (by simp) rfl
    have hold : ∀ old, m.wakes.find? e = some old → old.key ≠ key := by
      intro old hold hsame
      exact hfresh (Table.mem_keysWhere.mpr ⟨old, hold, decide_eq_true hsame⟩)
    have hkey : wake.key = key := of_decide_eq_true hkey
    have hchange := wakeChange_of_step hm hstep e
    rw [hwake] at hchange
    generalize hbefore : m.wakes.find? e = before at hchange
    cases hchange with
    | begun key handle => exact ⟨e, _, rfl, hwake, hkey, rfl⟩
    | kept | resuming | resumed | delivered => exact (hold _ hbefore hkey).elim

theorem concludes_of_deliver (hm : m.Consistent) {e : Episode} {wake : Wake}
    (hwake : m.wakes.find? e = some wake) (hstep : m.step (.deliver e) = some next) :
    ∃ result r, wake.stage = .resumed result ∧
      Transition.Concludes ⟨m, .deliver e, next⟩ e wake.key result r := by
  cases move_of_step hstep with
  | @deliver _ wake' result hwake' hstage =>
      rw [hwake, Option.some.injEq] at hwake'
      subst wake'
      obtain ⟨r, hends⟩ := hm.wakes.ends hwake hstage
      have hrecord := hends.records_eq wake.key
      rw [if_pos rfl] at hrecord
      have hbefore : m.state? wake.key = some .waking :=
        state?_eq_some_iff.mpr ⟨r, hends.record_eq, hends.waking⟩
      have hafter : ((m.setStage e .delivered).finish wake.key result).state? wake.key ≠
          some .waking := by
        rw [state?, hrecord]
        simp [Record.endWake_state_ne_waking]
      refine ⟨result, r.endWake result, hstage, rfl,
        Transition.leavesWaking_iff.mpr ⟨hbefore, hafter⟩, hrecord, ?_, ?_, ?_, ?_⟩
      · cases result <;> rfl
      · cases result <;> rfl
      · exact Record.endWake_wake result r
      · rw [Record.endWake_address]
        show outcome? _ e = _
        rw [outcome?, hends.wakes_eq, if_pos rfl, Option.bind_some]

/-- A record leaves waking only when it hears how its wake ended. -/
theorem concludes_of_leavesWaking (hm : m.Consistent) {event : Event}
    (hstep : m.step event = some next) {key : String}
    (hleaves : Transition.leavesWaking key ⟨m, event, next⟩) :
    ∃ e result r, Transition.Concludes ⟨m, event, next⟩ e key result r := by
  obtain ⟨hbefore, hafter⟩ := Transition.leavesWaking_iff.mp hleaves
  obtain ⟨r, hr, hstate⟩ := state?_eq_some_iff.mp hbefore
  have hchange := recordChange_of_step hm.wakes hstep key
  rw [hr] at hchange
  have hgone : ∀ r', next.records.find? key = some r' → r'.state ≠ .waking :=
    fun r' hr' hwaking => hafter (state?_eq_some_iff.mpr ⟨r', hr', hwaking⟩)
  generalize hnext : next.records.find? key = after at hchange
  cases hchange with
  | kept | touched => exact (hgone _ hnext hstate).elim
  | begun => exact (hgone _ hnext rfl).elim
  | paused =>
      exact (hgone _ hnext ((Record.keepsWake_markPaused.waking_iff r).mpr hstate)).elim
  | @ended e _ result _ _ hwake =>
      obtain ⟨wake, hfind, rfl, _⟩ := hm.wakes.held hr hwake
      obtain ⟨result, r', _, hends⟩ := concludes_of_deliver hm hfind hstep
      exact ⟨e, result, r', hends⟩

theorem endsCall_of_step (hm : m.Consistent) {event : Event} (hstep : m.step event = some next)
    {e : Episode} {wake wake' : Wake} {since : Instant} {result : Acknowledgement}
    (hwake : m.wakes.find? e = some wake) (hstage : wake.stage = .resuming since)
    (hnext : next.wakes.find? e = some wake') (hstage' : wake'.stage = .resumed result)
    (hintime : m.now ≤ since + m.resumeDeadline.nanos) :
    Transition.EndsCall ⟨m, event, next⟩ e m.resumeDeadline since result := by
  have hchanged : next.wakes.find? e ≠ m.wakes.find? e := by
    intro hsame
    rw [hsame, hwake, Option.some.injEq] at hnext
    rw [← hnext, hstage] at hstage'
    cases hstage'
  have hstaged : ∀ {e' stage}, next.wakes = (m.setStage e' stage).wakes →
      e = e' ∧ stage = .resumed result := by
    intro e' stage hwakes
    rw [hwakes, find?_wakes_setStage] at hnext hchanged
    split at hnext
    next he =>
      rw [hwake, Option.map_some, Option.some.injEq] at hnext
      subst wake'
      exact ⟨he, hstage'⟩
    next he => exact absurd (if_neg he) hchanged
  cases move_of_step hstep with
  | begin hwants =>
      have hfresh := hm.callers.wakes_eq_none hwants.caller_eq fun hpast => hpast.2 hwants.phase_eq
      rw [wakes_setPhase, find?_wakes_beginWake hfresh] at hnext
      split at hnext
      · cases hnext
        cases hstage'
      · rw [hwake, Option.some.injEq] at hnext
        rw [← hnext, hstage] at hstage'
        cases hstage'
  | resume => exact absurd (hstaged rfl).2 (by simp)
  | resumed =>
      obtain ⟨rfl, hresult⟩ := hstaged rfl
      cases hresult
      exact .answered rfl hintime
  | brokeDown =>
      obtain ⟨rfl, hresult⟩ := hstaged rfl
      cases hresult
      exact .brokeDown rfl hintime
  | overrun hwake' hold hlate =>
      obtain ⟨rfl, hresult⟩ := hstaged rfl
      cases hresult
      rw [hwake, Option.some.injEq] at hwake'
      subst hwake'
      rw [hstage, WakeStage.resuming.injEq] at hold
      subst hold
      exact .overran rfl (Nat.le_antisymm hintime hlate)
  | deliver hwake' hresumed =>
      obtain ⟨r, hends⟩ := hm.wakes.ends hwake' hresumed
      rw [hends.wakes_eq] at hnext hchanged
      split at hnext
      · cases hnext
        cases hstage'
      next he => exact absurd (if_neg he) hchanged
  | elapse | lookup | ensure | undescribed | described | refuse | direct | join | hear | wait
  | cancel | leave | touch | markPaused => exact absurd rfl hchanged

/-! ## Progress along a run -/

/-- A wake that is still to be delivered has its record waking. -/
theorem WakesHeld.waking_of_stage (hm : m.WakesHeld) {e : Episode} {wake : Wake}
    (hwake : m.wakes.find? e = some wake) (hstage : wake.stage ≠ .delivered) :
    m.state? wake.key = some .waking := by
  obtain ⟨r, hr, hholds⟩ := hm.undelivered hwake hstage
  exact state?_eq_some_iff.mpr ⟨r, hr, (hm.waking_iff hr).mpr (by simp [hholds])⟩

/-- Nothing happens to the wake itself, though the clock may go on. -/
theorem Transition.Progress.wait {began : Transition} {e : Episode} {wake : Wake}
    {deadline : Duration} {now later : Instant} {since : List Transition} {t : Transition}
    (hprogress : began.Progress e wake.key deadline now since wake.stage)
    (hclock : later = now ∨ wake.letsPass deadline later) (hother : t.event ≠ .deliver e)
    (hstate : wake.stage ≠ .delivered → t.after.state? wake.key = some .waking) :
    began.Progress e wake.key deadline later (since ++ [t]) wake.stage := by
  unfold Wake.letsPass at hclock
  revert hprogress hclock hstate
  generalize wake.stage = stage
  intro hprogress hclock hstate
  cases hprogress with
  | spawned hwaking hnow =>
      have hlater : later = now := by simpa using hclock
      exact .spawned (hwaking.concat (hstate (by simp)) hother) (hlater.trans hnow)
  | resuming hwaking hintime =>
      refine .resuming (hwaking.concat (hstate (by simp)) hother) ?_
      rcases hclock with rfl | hpasses
      · exact hintime
      · exact of_decide_eq_true hpasses
  | resumed hwaking hcall =>
      obtain ⟨s, hs, hended⟩ := hcall
      exact .resumed (hwaking.concat (hstate (by simp)) hother)
        ⟨s, List.mem_append_left _ hs, hended⟩
  | @delivered since rest last _ _ hwaking hcall hends honce =>
      rw [List.append_assoc, List.cons_append]
      refine .delivered hwaking hcall hends fun s hs => ?_
      rcases List.mem_append.mp hs with hs | hs
      · exact honce s hs
      · exact List.mem_singleton.mp hs ▸ hother

theorem Transition.Progress.step (hm : m.Consistent) {event : Event}
    (hstep : m.step event = some next) (htimely : Transition.isTimely ⟨m, event, next⟩)
    {began : Transition} {e : Episode} {wake : Wake} {since : List Transition}
    (hwake : m.wakes.find? e = some wake)
    (hprogress : began.Progress e wake.key m.resumeDeadline m.now since wake.stage) :
    ∃ wake', next.wakes.find? e = some wake' ∧ wake'.key = wake.key ∧
      began.Progress e wake.key m.resumeDeadline next.now (since ++ [⟨m, event, next⟩])
        wake'.stage := by
  obtain ⟨wake', hwake', hkey⟩ := wake_of_step hm hstep hwake
  refine ⟨wake', hwake', hkey, ?_⟩
  have hnext := (hm.step hstep).wakes
  have hstate : wake'.stage ≠ .delivered → next.state? wake.key = some .waking :=
    fun hstage => hkey ▸ hnext.waking_of_stage hwake' hstage
  have hdelivers : event = .deliver e → wake'.stage = .delivered ∧ wake.stage ≠ .delivered := by
    rintro rfl
    obtain ⟨result, r, hresumed, hends⟩ := concludes_of_deliver hm hwake hstep
    have houtcome := hends.outcome_eq
    simp only [outcome?, hwake', Option.bind_some] at houtcome
    exact ⟨(hnext.outcome_iff hwake').mp (by simp [houtcome]), by simp [hresumed]⟩
  have hclock : next.now = m.now ∨ wake' = wake ∧ wake.letsPass m.resumeDeadline next.now := by
    rcases letsPass_of_step hstep htimely with hnow | hpasses
    · exact .inl hnow
    · obtain ⟨hsame, hpasses⟩ := hpasses hwake'
      obtain rfl : wake = wake' := Option.some.inj (hwake.symm.trans hsame)
      exact .inr ⟨rfl, hpasses⟩
  have hchange := wakeChange_of_step hm hstep e
  rw [hwake, hwake'] at hchange
  cases hchange with
  | kept =>
      have hother : event ≠ .deliver e := fun he => (hdelivers he).2 (hdelivers he).1
      exact hprogress.wait (hclock.imp_right And.right) hother hstate
  | resuming hstage =>
      have hnow : next.now = m.now := by
        rcases hclock with hnow | ⟨hsame, _⟩
        · exact hnow
        · rw [← hsame] at hstage
          cases hstage
      rw [hstage] at hprogress
      cases hprogress with
      | spawned hwaking hbegan =>
          rw [hbegan]
          refine .resuming (hwaking.concat (hstate (by simp)) (by simp)) ?_
          rw [hnow, hbegan]
          exact Nat.le_add_right _ _
  | resumed result hother hstage =>
      have hother : event ≠ .deliver e := by
        intro he
        cases (hdelivers he).1
      have hended := fun hintime => endsCall_of_step hm hstep hwake hstage hwake' rfl hintime
      rw [hstage] at hprogress
      cases hprogress with
      | resuming hwaking hintime =>
          exact .resumed (hwaking.concat (hstate (by simp)) hother)
            ⟨_, List.mem_append_right _ (List.mem_singleton.mpr rfl), hended hintime⟩
  | delivered hstage =>
      obtain ⟨result, r, hresumed, hends⟩ := concludes_of_deliver hm hwake hstep
      rw [hresumed] at hprogress
      cases hprogress with
      | resumed hwaking hcall => exact .delivered hwaking hcall hends (by simp)

/-- Each time a record began to wake, a wake began that is followed since. -/
def WakesFollowed (ts : List Transition) (m : Manager) : Prop :=
  ∀ earlier t later key, ts = earlier ++ t :: later → t.entersWaking key →
    ∃ e wake, t.event = .engage e ∧ m.wakes.find? e = some wake ∧ wake.key = key ∧
      t.Progress e key m.resumeDeadline m.now later wake.stage

theorem WakesFollowed.step {ts : List Transition} (hm : m.Consistent)
    (hfollowed : WakesFollowed ts m) {event : Event} (hstep : m.step event = some next)
    (htimely : Transition.isTimely ⟨m, event, next⟩) :
    WakesFollowed (ts ++ [⟨m, event, next⟩]) next := by
  intro earlier t later key hsplit henters
  rw [resumeDeadline_of_step hstep]
  rcases Run.split_concat hsplit with ⟨rfl, rfl, rfl⟩ | ⟨since, rfl, rfl⟩
  · obtain ⟨e, wake, rfl, hwake, hkey, hstage⟩ := begins_of_entersWaking hm hstep henters
    have hnow : next.now = m.now := by
      rcases letsPass_of_step hstep htimely with hnow | hpasses
      · exact hnow
      · have hpasses := (hpasses hwake).2
        simp [Wake.letsPass, hstage] at hpasses
    refine ⟨e, wake, rfl, hwake, hkey, ?_⟩
    rw [hstage]
    exact .spawned (fun s hs => (List.not_mem_nil hs).elim) hnow
  · obtain ⟨e, wake, hevent, hwake, rfl, hprogress⟩ := hfollowed _ _ _ _ rfl henters
    obtain ⟨wake', hwake', hkey, hprogress'⟩ := hprogress.step hm hstep htimely hwake
    exact ⟨e, wake', hevent, hwake', hkey, hprogress'⟩

/-! ## The callers of a wake -/

/-- Where a caller can be that waited for the wake when its outcome came out. -/
inductive HearsOf (key : String) (outcome : WakeOutcome) (w : Wait) : CallerPhase → Prop
  | waiting : HearsOf key outcome w (.waiting w)
  | left : HearsOf key outcome w .left
  | answered : HearsOf key outcome w (.answered (outcome.answer key))

theorem hearsOf_of_step {event : Event} (hstep : m.step event = some next) {c : CallerId}
    {caller : Caller} {w : Wait} {outcome : WakeOutcome}
    (houtcome : m.outcome? w.episode = some outcome) (hcaller : m.callers.find? c = some caller)
    (hhears : HearsOf caller.key outcome w caller.phase) :
    ∃ caller', next.callers.find? c = some caller' ∧ caller'.key = caller.key ∧
      HearsOf caller.key outcome w caller'.phase := by
  obtain ⟨caller', hcaller', hchange⟩ := callerChange_of_step hstep hcaller
  refine ⟨caller', hcaller', ?_⟩
  cases hchange with
  | kept => exact ⟨rfl, hhears⟩
  | looked hlooks phase =>
      have hpast : caller.IsPast := by
        generalize hphase : caller.phase = phase at hhears
        cases hhears <;> simp [Caller.IsPast, hphase]
      exact absurd hpast hlooks
  | @heard w' a hphase hverdict =>
      rw [hphase] at hhears
      cases hhears
      have hanswer : a = outcome.answer caller.key := by
        simpa [verdict?, houtcome, eq_comm] using hverdict
      exact ⟨rfl, hanswer ▸ .answered⟩
  | cancelled => exact ⟨rfl, hhears⟩
  | left => exact ⟨rfl, .left⟩

/-- Who waits for a wake when the record hears of its end, hears the same. -/
def WaitersHear (ts : List Transition) (m : Manager) : Prop :=
  ∀ earlier last later e key result r, ts = earlier ++ last :: later →
    last.Concludes e key result r → m.outcome? e = some (.ofResult r.address result) ∧
    ∀ c caller w, last.before.callers.find? c = some caller → caller.phase = .waiting w →
      w.episode = e → ∃ caller', m.callers.find? c = some caller' ∧ caller'.key = caller.key ∧
        HearsOf caller.key (.ofResult r.address result) w caller'.phase

theorem WaitersHear.step {ts : List Transition} (hm : m.Consistent) (hhear : WaitersHear ts m)
    {event : Event} (hstep : m.step event = some next) :
    WaitersHear (ts ++ [⟨m, event, next⟩]) next := by
  intro earlier last later e key result r hsplit hends
  rcases Run.split_concat hsplit with ⟨rfl, rfl, rfl⟩ | ⟨since, rfl, rfl⟩
  · refine ⟨hends.outcome_eq, fun c caller w hcaller hphase _ => ?_⟩
    obtain rfl : event = .deliver e := hends.event_eq
    have hcallers : next.callers = m.callers := by
      cases move_of_step hstep with
      | deliver => rw [callers_finish, callers_setStage]
    exact ⟨caller, hcallers ▸ hcaller, rfl, hphase ▸ .waiting⟩
  · obtain ⟨houtcome, hhears⟩ := hhear _ _ _ _ _ _ _ rfl hends
    refine ⟨outcome?_of_step hm hstep houtcome, fun c caller w hcaller hphase hwaits => ?_⟩
    obtain ⟨caller', hcaller', hkey, hheard⟩ := hhears c caller w hcaller hphase hwaits
    subst hwaits
    obtain ⟨caller'', hcaller'', hkey', hheard'⟩ :=
      hearsOf_of_step hstep houtcome hcaller' (hkey.symm ▸ hheard)
    exact ⟨caller'', hcaller'', hkey'.trans hkey, hkey ▸ hheard'⟩

/-! ## Runs -/

variable {deadline : Duration} {es : List Event}

theorem resumeDeadline_of_run (hrun : (start deadline).run es = some m) :
    m.resumeDeadline = deadline :=
  Run.invariant (P := fun n => n.resumeDeadline = deadline)
    (fun hsame hstep => (resumeDeadline_of_step hstep).trans hsame) rfl hrun

theorem wakesFollowed_of_run (hrun : (start deadline).run es = some m)
    (htimely : ∀ t ∈ (start deadline).trail es, t.isTimely) :
    WakesFollowed ((start deadline).trail es) m := by
  apply (consistent_start deadline).trail_induction
    (P := fun ts n => (∀ t ∈ ts, t.isTimely) → WakesFollowed ts n) _ _ hrun htimely
  · intro ts m e next hm hfollowed hstep htimely
    have hearlier := hfollowed fun t ht => htimely t (List.mem_append_left _ ht)
    exact hearlier.step hm hstep (htimely _ (List.mem_append_right _ (List.mem_singleton.mpr rfl)))
  · intro _ earlier t later key hsplit
    simp at hsplit

theorem waitersHear_of_run (hrun : (start deadline).run es = some m) :
    WaitersHear ((start deadline).trail es) m := by
  apply (consistent_start deadline).trail_induction (P := WaitersHear) _ _ hrun
  · intro ts m e next hm hhear hstep
    exact hhear.step hm hstep
  · intro earlier last later e key result r hsplit
    simp at hsplit

theorem concludes_of_run (hrun : (start deadline).run es = some m) {t : Transition}
    (ht : t ∈ (start deadline).trail es) {key : String} (hleaves : t.leavesWaking key) :
    ∃ e result r, t.Concludes e key result r := by
  have hall := (consistent_start deadline).trail_induction
    (P := fun ts _ => ∀ t ∈ ts, t.leavesWaking key → ∃ e result r, t.Concludes e key result r)
    (fun {ts m e next} hm hearlier hstep t ht hleaves => ?_) (by simp) hrun
  · exact hall t ht hleaves
  · rcases List.mem_append.mp ht with ht | ht
    · exact hearlier t ht hleaves
    · obtain rfl := List.mem_singleton.mp ht
      exact concludes_of_leavesWaking hm hstep hleaves

/-- When all that was due has been done, a wake that is still to be delivered began less than the
time of a call ago. -/
theorem Transition.Progress.waking {began : Transition} {e : Episode} {key : String} {wake : Wake}
    {later : List Transition} (hsettled : m.Settled) (hwake : m.wakes.find? e = some wake)
    (hprogress : began.Progress e key m.resumeDeadline m.now later wake.stage)
    (hstage : wake.stage ≠ .delivered) :
    StaysWaking e key later ∧ m.now < began.before.now + m.resumeDeadline.nanos := by
  have hrests := hsettled.restsWake hwake
  unfold Manager.restsWake at hrests
  generalize wake.stage = stage at hprogress hstage hrests
  cases hprogress with
  | spawned => cases hrests
  | resuming hwaking => exact ⟨hwaking, of_decide_eq_true hrests⟩
  | resumed => cases hrests
  | delivered => exact absurd rfl hstage

/-- Under virtual time every wake ends.  A record that is waking when all that was due has been
done began to wake less than the time of a call ago.  Each time a record begins to wake, the
steps since then say how far the wake has come: the record leaves waking once for it, in the step
in which it hears how the call ended, be it that it was answered in time, broke down or was given
up; and a wake as old as the time of a call has ended.  Records never leave waking otherwise.
Whoever waited until then is told the outcome of the wake, or has gone away.  And always all that
is due can be done, without time passing. -/
theorem wake_ends (hrun : (start deadline).run es = some m)
    (htimely : ∀ t ∈ (start deadline).trail es, t.isTimely) :
    (m.Settled → ∀ key, m.state? key = some .waking → ∃ earlier t later,
      (start deadline).trail es = earlier ++ t :: later ∧ t.entersWaking key ∧
      (∀ s ∈ later, s.after.state? key = some .waking) ∧
      m.now < t.before.now + deadline.nanos) ∧
    (∀ earlier t later key, (start deadline).trail es = earlier ++ t :: later →
      t.entersWaking key → ∃ e wake, t.event = .engage e ∧ m.wakes.find? e = some wake ∧
        wake.key = key ∧ t.Progress e key deadline m.now later wake.stage ∧
        (m.Settled → t.before.now + deadline.nanos ≤ m.now → wake.stage = .delivered)) ∧
    (∀ t ∈ (start deadline).trail es, ∀ key, t.leavesWaking key →
      ∃ e result r, t.Concludes e key result r) ∧
    (m.Settled → ∀ earlier last later e key result r c caller w,
      (start deadline).trail es = earlier ++ last :: later → last.Concludes e key result r →
      last.before.callers.find? c = some caller → caller.phase = .waiting w → w.episode = e →
      ∃ caller', m.callers.find? c = some caller' ∧ (caller'.phase = .left ∨
        caller'.phase = .answered ((WakeOutcome.ofResult r.address result).answer caller.key))) ∧
    ∃ later last, m.run later = some last ∧ (∀ e ∈ later, e.isOwn) ∧ last.Settled := by
  have hm := consistent_of_run hrun
  have hfollowed := wakesFollowed_of_run hrun htimely
  obtain rfl := resumeDeadline_of_run hrun
  refine ⟨?_, ?_, fun t ht key hleaves => concludes_of_run hrun ht hleaves, ?_,
    exists_settled m⟩
  · intro hsettled key hwaking
    obtain ⟨r, hr, hstate⟩ := state?_eq_some_iff.mp hwaking
    obtain ⟨e, hholds⟩ := Option.isSome_iff_exists.mp ((hm.wakes.waking_iff hr).mp hstate)
    obtain ⟨wake, hwake, rfl, hstage⟩ := hm.wakes.held hr hholds
    obtain ⟨earlier, t, later, hsplit, hevent, henters⟩ := wakesBegun_of_run hrun e wake hwake
    obtain ⟨e', wake', hevent', hwake', _, hprogress⟩ := hfollowed _ _ _ _ hsplit henters
    obtain rfl : e = e' := by simpa [hevent] using hevent'
    obtain rfl : wake = wake' := Option.some.inj (hwake.symm.trans hwake')
    obtain ⟨hstays, hrecent⟩ := hprogress.waking hsettled hwake hstage
    exact ⟨earlier, t, later, hsplit, henters, fun s hs => (hstays s hs).1, hrecent⟩
  · intro earlier t later key hsplit henters
    obtain ⟨e, wake, hevent, hwake, hkey, hprogress⟩ := hfollowed _ _ _ _ hsplit henters
    refine ⟨e, wake, hevent, hwake, hkey, hprogress, fun hsettled hlate => ?_⟩
    by_cases hstage : wake.stage = .delivered
    · exact hstage
    · have hrecent := (hprogress.waking hsettled hwake hstage).2
      exact absurd hlate (Nat.not_le_of_lt hrecent)
  · intro hsettled earlier last later e key result r c caller w hsplit hends hcaller hphase hwaits
    obtain ⟨houtcome, hhears⟩ := waitersHear_of_run hrun _ _ _ _ _ _ _ hsplit hends
    obtain ⟨caller', hcaller', hkey, hheard⟩ := hhears c caller w hcaller hphase hwaits
    refine ⟨caller', hcaller', ?_⟩
    have hrests := hsettled.restsCaller hcaller'
    generalize hphase' : caller'.phase = phase at hheard
    cases hheard with
    | waiting => simp [restsCaller, hphase', verdict?, hwaits ▸ houtcome] at hrests
    | left => exact .inl rfl
    | answered => exact .inr rfl

/-- One call succeeds, one breaks down, and one never comes back, whose only caller went away at
once; a fourth is still under way. -/
def fourWakes : List Event :=
  [.ensure 1 "alpha" (.ofSeconds 60) false,
    .described 1 (.ok [⟨"vm-1", "10.0.0.5", "paused", ["alpha"]⟩]), .engage 1, .resume 1,
    .ensure 2 "beta" (.ofSeconds 60) false,
    .described 2 (.ok [⟨"vm-2", "10.0.0.6", "paused", ["beta"]⟩]), .engage 2, .resume 2,
    .ensure 3 "gamma" (.ofSeconds 60) false,
    .described 3 (.ok [⟨"vm-3", "10.0.0.7", "paused", ["gamma"]⟩]), .engage 3, .leave 3, .resume 3,
    .elapse (.ofSeconds 10), .resumed 1 .done, .deliver 1, .poll 1,
    .brokeDown 2 "panicked", .deliver 2, .poll 2,
    .ensure 4 "delta" (.ofSeconds 60) false,
    .described 4 (.ok [⟨"vm-4", "10.0.0.8", "paused", ["delta"]⟩]), .engage 4, .resume 4,
    .elapse (.ofSeconds 20), .overrun 3, .deliver 3]

theorem wake_ends_fourWakes :
    ∃ m, (start (.ofSeconds 30)).run fourWakes = some m ∧ m.Settled ∧
      m.state? "delta" = some .waking ∧
      (∃ t ∈ (start (.ofSeconds 30)).trail fourWakes, t.entersWaking "delta" ∧
        m.now < t.before.now + (Duration.ofSeconds 30).nanos) ∧
      (∃ wake, m.wakes.find? 3 = some wake ∧ wake.stage = .delivered) ∧
      (∃ t ∈ (start (.ofSeconds 30)).trail fourWakes, ∃ result r,
        t.Concludes 3 "gamma" result r ∧ r.wakeError? = some (.timeout (.ofSeconds 30))) ∧
      ∃ caller, m.callers.find? 2 = some caller ∧ (caller.phase = .left ∨ caller.phase =
        .answered (.error (.wakeFailed "beta" (.remote "resume task failed: panicked")))) := by
  obtain ⟨m, hrun, htimely, hsettled, hwaking, hlate⟩ :
      ∃ m, (start (.ofSeconds 30)).run fourWakes = some m ∧
        (∀ t ∈ (start (.ofSeconds 30)).trail fourWakes, t.isTimely) ∧ m.Settled ∧
        m.state? "delta" = some .waking ∧ 0 + (Duration.ofSeconds 30).nanos ≤ m.now :=
    ⟨_, rfl, by decide, by decide, rfl, by decide⟩
  obtain ⟨hrecent, hfollowed, hleaves, hheard, _⟩ := wake_ends hrun htimely
  have hdelta : ∃ t ∈ (start (.ofSeconds 30)).trail fourWakes, t.entersWaking "delta" ∧
      m.now < t.before.now + (Duration.ofSeconds 30).nanos := by
    obtain ⟨earlier, t, later, hsplit, henters, _, hnow⟩ := hrecent hsettled "delta" hwaking
    exact ⟨t, by simp [hsplit], henters, hnow⟩
  have hgamma : ∃ wake, m.wakes.find? 3 = some wake ∧ wake.stage = .delivered := by
    obtain ⟨e, wake, hevent, hwake, _, _, hdelivered⟩ :=
      hfollowed (((start (.ofSeconds 30)).trail fourWakes).take 10) _ _ "gamma" rfl (by decide)
    obtain rfl : 3 = e := Event.engage.inj hevent
    exact ⟨wake, hwake, hdelivered hsettled hlate⟩
  have hends : ∃ t ∈ (start (.ofSeconds 30)).trail fourWakes, ∃ result r,
      t.Concludes 3 "gamma" result r ∧ r.wakeError? = some (.timeout (.ofSeconds 30)) := by
    obtain ⟨e, result, r, hends⟩ :=
      hleaves ((start (.ofSeconds 30)).trail fourWakes)[26] (List.getElem_mem _) "gamma" (by decide)
    obtain rfl : 3 = e := Event.deliver.inj hends.event_eq
    refine ⟨_, List.getElem_mem _, result, r, hends, ?_⟩
    obtain rfl := Option.some.inj hends.record_eq
    rfl
  refine ⟨m, hrun, hsettled, hwaking, hdelta, hgamma, hends, ?_⟩
  obtain ⟨e, result, r, hends⟩ :=
    hleaves ((start (.ofSeconds 30)).trail fourWakes)[18] (List.getElem_mem _) "beta" (by decide)
  obtain rfl : 2 = e := Event.deliver.inj hends.event_eq
  have houtcome := hends.outcome_eq
  obtain ⟨caller, hcaller, hphase⟩ := hheard hsettled
    (((start (.ofSeconds 30)).trail fourWakes).take 18) _ _ 2 "beta" result r 2 _ _ rfl hends
    rfl rfl rfl
  rw [← Option.some.inj houtcome] at hphase
  exact ⟨caller, hcaller, hphase⟩

end Manager

end WakeRouter
