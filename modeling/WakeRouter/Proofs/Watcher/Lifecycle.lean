import WakeRouter.Proofs.Watcher.Loops
import WakeRouter.Proofs.Watcher.Exclusion
import WakeRouter.Simulation.Script

/-!
# The life of a watcher's loops

A watcher can be started again while a loop that it stopped is still in the middle of a
pause call.  Nothing but the end of that call is left of the old loop: its ticks look at the
signal before each call, the one under way as well as those that its ticker still brings.
-/

namespace WakeRouter.Upkeep

variable {u next : Upkeep}

/-! ## Signals stay -/

/-- All loops are still there, in the same phases, and no signal is taken back. -/
def Steady (u next : Upkeep) : Prop :=
  ∀ (l : LoopId) (loop : Loop), u.loops[l]? = some loop →
    ∃ loop' : Loop, next.loops[l]? = some loop' ∧ loop'.phase = loop.phase ∧
      (loop.stopping → loop'.stopping)

theorem LoopsKept.steady (hkept : u.LoopsKept next) : u.Steady next := by
  intro l loop hloop
  rcases hkept l with hsame | hsignalled
  · exact ⟨loop, hsame.trans hloop, rfl, id⟩
  · rw [hloop] at hsignalled
    exact ⟨_, hsignalled, rfl, fun _ => rfl⟩

theorem steady_start (u : Upkeep) (w : WatcherId) : u.Steady (u.start w) := by
  rcases start_cases u w with hsame | ⟨watcher, _, _, hstart⟩
  · rw [hsame]
    exact (loopsKept_of_same rfl).steady
  intro l loop hloop
  have hl : l < u.loops.length := (List.getElem?_eq_some_iff.mp hloop).1
  refine ⟨loop, ?_, rfl, id⟩
  rw [hstart, List.getElem?_append_left hl]
  exact hloop

theorem isSignalled_iff {l : LoopId} :
    u.isSignalled l ↔ ∃ loop, u.loops[l]? = some loop ∧ loop.stopping := by
  simp [isSignalled, Option.any_eq_true]

theorem Steady.isSignalled (hsteady : u.Steady next) {l : LoopId} (hl : u.isSignalled l) :
    next.isSignalled l := by
  obtain ⟨loop, hloop, hstopping⟩ := isSignalled_iff.mp hl
  obtain ⟨loop', hloop', _, hkept⟩ := hsteady l loop hloop
  exact isSignalled_iff.mpr ⟨loop', hloop', hkept hstopping⟩

/-- A step leaves the loops steady, or moves one of them on that waits for no tick any more. -/
theorem loops_of_step {e : Event} (hstep : u.step e = some next) :
    u.Steady next ∨ ∃ (l : LoopId) (loop : Loop) (phase : LoopPhase), u.loops[l]? = some loop ∧
      (∀ i due, loop.phase = .ticking i due → (u.ticks[i]?).all Tick.isOver) ∧
      next.loops = (u.setLoop l fun loop => { loop with phase := phase }).loops := by
  cases move_of_step hstep with
  | manager | tick => exact .inl (loopsKept_of_same rfl).steady
  | install => exact .inl (LoopsKept.steady (loopsKept_discard u))
  | discard => exact .inl (loopsKept_discard u).steady
  | start => exact .inl (steady_start u _)
  | stop => exact .inl (loopsKept_stop u _).steady
  | begin | breakDown | dropTick => exact .inl (loopsKept_setTick u _ _).steady
  | @paused _ _ key _ _ _ _ result =>
      have hkept := loopsKept_setTick { u with manager := afterPause u.manager key result }
      exact .inl (LoopsKept.steady (hkept _ _))
  | enter hloop hphase => exact .inr ⟨_, _, _, hloop, by simp [hphase], rfl⟩
  | ring hloop hphase => exact .inr ⟨_, _, _, hloop, by simp [hphase], rfl⟩
  | quit hloop hphase => exact .inr ⟨_, _, _, hloop, by simp [hphase], rfl⟩
  | settle hloop hphase hover =>
      refine .inr ⟨_, _, _, hloop, ?_, rfl⟩
      intro i due hticking
      rw [hphase] at hticking
      cases hticking
      exact hover

theorem isSignalled_of_step {e : Event} (hstep : u.step e = some next) {l : LoopId}
    (hl : u.isSignalled l) : next.isSignalled l := by
  rcases loops_of_step hstep with hsteady | ⟨l', loop, phase, _, _, hloops⟩
  · exact hsteady.isSignalled hl
  · obtain ⟨before, hbefore, hstopping⟩ := isSignalled_iff.mp hl
    rw [isSignalled_iff, hloops, loop_setLoop, hbefore]
    split
    · exact ⟨_, rfl, hstopping⟩
    · exact ⟨_, rfl, hstopping⟩

/-! ## Ticks -/

theorem isStopped_eq_isSignalled {tick : Tick} {l : LoopId} (hloop : tick.loop? = some l) :
    u.isStopped tick = u.isSignalled l := by
  simp [isStopped, isSignalled, hloop]

/-- The loop waits for the tick. -/
def Awaits (u : Upkeep) (l : LoopId) (i : TickId) : Prop :=
  ∃ (loop : Loop) (due : Instant), u.loops[l]? = some loop ∧ loop.phase = .ticking i due

/-- What a step can do to a tick. -/
inductive TickChange (u next : Upkeep) (i : TickId) : Option Tick → Option Tick → Prop
  | kept (tick? : Option Tick) : TickChange u next i tick? tick?
  | scheduled {tick : Tick} (hphase : tick.phase = .scheduled)
      (hloop : ∀ l, tick.loop? = some l → next.Awaits l i) : TickChange u next i none (some tick)
  /-- The tick goes through its keys, unless it is to stop. -/
  | advanced {tick busy : Tick} (hover : tick.isOver = false) (hsource : busy.source = tick.source)
      (handleOf : String → Option String) (keys : List String) :
      TickChange u next i (some tick) (some (busy.proceed handleOf (u.isStopped tick) keys))
  | ended {tick last : Tick} (hsource : last.source = tick.source) (hover : last.isOver) :
      TickChange u next i (some tick) (some last)

theorem tickChange_schedule {tick : Tick} (hphase : tick.phase = .scheduled)
    (hloop : ∀ l, tick.loop? = some l → next.Awaits l u.ticks.length) (i : TickId) :
    u.TickChange next i u.ticks[i]? (u.ticks ++ [tick])[i]? := by
  rcases Nat.lt_trichotomy i u.ticks.length with hold | hnew | hlater
  · rw [List.getElem?_append_left hold]
    exact .kept _
  · subst hnew
    rw [List.getElem?_eq_none (Nat.le_refl _), List.getElem?_concat_length]
    exact .scheduled hphase hloop
  · have hnone : (u.ticks ++ [tick])[i]? = none := List.getElem?_eq_none (by simp; omega)
    rw [hnone, List.getElem?_eq_none (Nat.le_of_lt hlater)]
    exact .kept none

theorem tickChange_set {t : TickId} {tick last : Tick} (htick : u.ticks[t]? = some tick)
    (hchange : u.TickChange next t (some tick) (some last)) (i : TickId) :
    u.TickChange next i u.ticks[i]? (u.ticks.set t last)[i]? := by
  by_cases hsame : t = i
  · subst hsame
    have ht : t < u.ticks.length := (List.getElem?_eq_some_iff.mp htick).1
    rw [htick, List.getElem?_set_self ht]
    exact hchange
  · rw [List.getElem?_set_ne hsame]
    exact .kept _

/-- The tick that begins, or whose pause call ends, with the event. -/
def Event.advances? : Event → Option TickId
  | .begin t _ | .paused t _ => some t
  | _ => none

theorem advanced_of_step {e : Event} {t : TickId} (ht : e.advances? = some t)
    (hstep : u.step e = some next) :
    ∃ (tick busy : Tick) (handleOf : String → Option String) (keys : List String),
      u.ticks[t]? = some tick ∧ tick.isOver = false ∧
      busy.source = tick.source ∧
      next.ticks = u.ticks.set t (busy.proceed handleOf (u.isStopped tick) keys) := by
  cases move_of_step hstep with
  | @begin t' tick keys htick hphase =>
      obtain rfl := Option.some.inj ht
      exact ⟨tick, { tick with stats := { tick.stats with idle := keys.length } }, _, keys, htick,
        by simp [Tick.isOver, hphase], rfl, ticks_setTick u _ _⟩
  | @paused t' tick key handle rest htick hphase result =>
      obtain rfl := Option.some.inj ht
      have hstopped : u.isStopped (tick.count result) = u.isStopped tick := by
        simp [isStopped, Tick.loop?]
      refine ⟨tick, tick.count result, (afterPause u.manager key result).handle?, rest, htick,
        by simp [Tick.isOver, hphase], tick.source_count result, ?_⟩
      rw [← hstopped]
      exact ticks_setTick { u with manager := afterPause u.manager key result } _ _
  | _ => cases ht

theorem tickChange_of_step {e : Event} (hstep : u.step e = some next) (i : TickId) :
    u.TickChange next i u.ticks[i]? next.ticks[i]? := by
  cases hadvances : e.advances? with
  | some t =>
      obtain ⟨tick, busy, handleOf, keys, htick, hover, hsource, hticks⟩ :=
        advanced_of_step hadvances hstep
      rw [hticks]
      exact tickChange_set htick (.advanced hover hsource handleOf keys) i
  | none =>
      cases move_of_step hstep with
      | begin | paused => cases hadvances
      | manager | enter | settle | quit => exact .kept _
      | install => rw [(sameWork_install u _).ticks_eq]; exact .kept _
      | discard => rw [(sameWork_discard u).ticks_eq]; exact .kept _
      | start => rw [(sameWork_start u _).ticks_eq]; exact .kept _
      | stop => rw [(sameWork_stop u _).ticks_eq]; exact .kept _
      | tick =>
          apply tickChange_schedule rfl
          intro l hloop
          cases hloop
      | @ring l loop due hloop =>
          apply tickChange_schedule rfl
          intro l' hl'
          obtain rfl := Option.some.inj hl'
          let rung : Loop := { loop with
            phase := .ticking u.ticks.length
              (Ticker.next u.manager.now due loop.schedule.interval) }
          refine ⟨rung, _, ?_, rfl⟩
          exact (loop_setLoop l _ l).trans (by rw [if_pos rfl, hloop]; rfl)
      | breakDown htick | dropTick htick =>
          rw [ticks_setTick]
          apply tickChange_set htick
          exact .ended rfl rfl

/-! ## Loops that have been told to stop -/

/-- A pause call of the tick begins with the step. -/
def Dispatches (t : Run.Transition Upkeep Event) (i : TickId) (tick : Tick) : Prop :=
  t.event.advances? = some i ∧ t.after.ticks[i]? = some tick ∧ tick.isPausing

theorem loop?_eq_of_source {tick tick' : Tick} (hsource : tick.source = tick'.source) :
    tick.loop? = tick'.loop? := by
  rw [Tick.loop?, hsource, Tick.loop?]

theorem not_isPausing_of_isOver {tick : Tick} (hover : tick.isOver) : ¬tick.isPausing := by
  unfold Tick.isOver at hover
  unfold Tick.isPausing
  cases hphase : tick.phase <;> simp_all

theorem loop?_ne_of_dispatches {t : Run.Transition Upkeep Event}
    (hstep : t.before.step t.event = some t.after) {l : LoopId} (hl : t.before.isSignalled l)
    {i : TickId} {tick : Tick} (hdispatches : Dispatches t i tick) : tick.loop? ≠ some l := by
  obtain ⟨hadvances, hafter, hpausing⟩ := hdispatches
  obtain ⟨old, busy, handleOf, keys, hold, _, hsource, hticks⟩ := advanced_of_step hadvances hstep
  have hi : i < t.before.ticks.length := (List.getElem?_eq_some_iff.mp hold).1
  rw [hticks, List.getElem?_set_self hi, Option.some.injEq] at hafter
  subst hafter
  intro hloop
  rw [loop?_eq_of_source (Tick.source_proceed ..), loop?_eq_of_source hsource] at hloop
  rw [isStopped_eq_isSignalled hloop, hl, Tick.proceed_stopped] at hpausing
  cases hpausing

/-- A loop that has been told to stop waits for no other pause call than before. -/
theorem tick_of_isPausing {e : Event} (hstep : u.step e = some next) {l : LoopId}
    (hl : u.isSignalled l) {i : TickId} {tick : Tick} (htick : next.ticks[i]? = some tick)
    (hloop : tick.loop? = some l) (hpausing : tick.isPausing) : u.ticks[i]? = some tick := by
  have hchange := tickChange_of_step hstep i
  rw [htick] at hchange
  generalize hold : u.ticks[i]? = old? at hchange
  cases hchange with
  | kept => rfl
  | scheduled hphase => simp [Tick.isPausing, hphase] at hpausing
  | advanced _ hsource handleOf keys =>
      rw [loop?_eq_of_source (Tick.source_proceed ..), loop?_eq_of_source hsource] at hloop
      rw [isStopped_eq_isSignalled hloop, hl, Tick.proceed_stopped] at hpausing
      cases hpausing
  | ended _ hover => exact absurd hpausing (not_isPausing_of_isOver hover)

/-! ## One tick at a time -/

/-- Each loop waits for its ticks that are not over. -/
def TicksAwaited (u : Upkeep) : Prop :=
  ∀ (i : TickId) (tick : Tick) (l : LoopId), u.ticks[i]? = some tick → tick.loop? = some l →
    tick.isOver = false → u.Awaits l i

theorem ticksAwaited_ofManager (m : Manager) : (ofManager m).TicksAwaited := by
  intro i tick l htick
  cases htick

theorem Steady.awaits (hsteady : u.Steady next) {l : LoopId} {i : TickId}
    (hawaits : u.Awaits l i) : next.Awaits l i := by
  obtain ⟨loop, due, hloop, hphase⟩ := hawaits
  obtain ⟨loop', hloop', hsame, _⟩ := hsteady l loop hloop
  exact ⟨loop', due, hloop', hsame.trans hphase⟩

theorem awaits_of_step {e : Event} (hstep : u.step e = some next) {l : LoopId} {i : TickId}
    {tick : Tick} (htick : u.ticks[i]? = some tick) (hbusy : tick.isOver = false)
    (hawaits : u.Awaits l i) : next.Awaits l i := by
  rcases loops_of_step hstep with hsteady | ⟨l', moved, phase, hmoved, hfree, hloops⟩
  · exact hsteady.awaits hawaits
  · obtain ⟨loop, due, hloop, hphase⟩ := hawaits
    -- The loop that moves on waits for no tick that is under way.
    have hne : l ≠ l' := by
      rintro rfl
      rw [hmoved, Option.some.injEq] at hloop
      have hover := hfree i due (hloop ▸ hphase)
      simp [htick, hbusy] at hover
    exact ⟨loop, due, by rw [hloops, loop_setLoop, if_neg hne]; exact hloop, hphase⟩

theorem TicksAwaited.step (hu : u.TicksAwaited) {e : Event} (hstep : u.step e = some next) :
    next.TicksAwaited := by
  intro i tick l htick hloop hbusy
  have hchange := tickChange_of_step hstep i
  rw [htick] at hchange
  generalize hold : u.ticks[i]? = old? at hchange
  cases hchange with
  | kept => exact awaits_of_step hstep hold hbusy (hu i tick l hold hloop hbusy)
  | scheduled _ hnew => exact hnew l hloop
  | @advanced old busy hover hsource =>
      rw [loop?_eq_of_source (Tick.source_proceed ..), loop?_eq_of_source hsource] at hloop
      exact awaits_of_step hstep hold hover (hu i old l hold hloop hover)
  | ended _ hover =>
      rw [hbusy] at hover
      cases hover

theorem TicksAwaited.eq_of_loop (hu : u.TicksAwaited) {l : LoopId} {i j : TickId}
    {tick tick' : Tick} (htick : u.ticks[i]? = some tick) (htick' : u.ticks[j]? = some tick')
    (hloop : tick.loop? = some l) (hloop' : tick'.loop? = some l) (hbusy : tick.isOver = false)
    (hbusy' : tick'.isOver = false) : i = j := by
  obtain ⟨loop, due, hfound, hphase⟩ := hu i tick l htick hloop hbusy
  obtain ⟨loop', due', hfound', hphase'⟩ := hu j tick' l htick' hloop' hbusy'
  rw [hfound, Option.some.injEq] at hfound'
  rw [← hfound', hphase] at hphase'
  cases hphase'
  rfl

/-! ## Runs -/

variable {m : Manager} {es : List Event}

theorem invariants_of_run (hrun : Run.after? step (ofManager m) es = some u) :
    u.Tended (StartedBy (Run.trail step (ofManager m) es)) ∧ u.Freed ∧ u.TicksAwaited := by
  have hfirst : (ofManager m).Tended (StartedBy []) ∧ (ofManager m).Freed ∧
      (ofManager m).TicksAwaited :=
    ⟨tended_ofManager m, freed_ofManager m, ticksAwaited_ofManager m⟩
  apply Run.trail_induction
    (P := fun ts v => v.Tended (StartedBy ts) ∧ v.Freed ∧ v.TicksAwaited) _ [] hfirst hrun
  rintro ts v e next ⟨htended, hfreed, hticks⟩ hstep
  exact ⟨htended.step hstep, hfreed.step hstep, hticks.step hstep⟩

/-- Between the two states the loop begins no pause call; the call that it waits for at the end
is the one that it waited for at first, and will be the last one of its tick. -/
structure WindsDown (u : Upkeep) (l : LoopId) (later : List Event) (v : Upkeep) : Prop where
  signalled : v.isSignalled l
  quiet : ∀ t ∈ Run.trail step u later, ∀ i tick, Dispatches t i tick → tick.loop? ≠ some l
  underway : ∀ (i : TickId) (tick : Tick), v.ticks[i]? = some tick → tick.loop? = some l →
    tick.isPausing → u.ticks[i]? = some tick
  completes : ∀ (i : TickId) (tick : Tick) (key handle : String) (rest : List String)
    (result : Acknowledgement), v.ticks[i]? = some tick → tick.loop? = some l →
    tick.phase = .pausing key handle rest →
    ∃ next, v.step (.paused i result) = some next ∧
      next.manager = afterPause v.manager key result ∧
      next.ticks[i]? = some { tick.count result with phase := .done }

theorem completes_of_isSignalled {l : LoopId} (hl : u.isSignalled l) {i : TickId} {tick : Tick}
    {key handle : String} {rest : List String} (htick : u.ticks[i]? = some tick)
    (hloop : tick.loop? = some l) (hphase : tick.phase = .pausing key handle rest)
    (result : Acknowledgement) :
    ∃ next, u.step (.paused i result) = some next ∧
      next.manager = afterPause u.manager key result ∧
      next.ticks[i]? = some { tick.count result with phase := .done } := by
  obtain ⟨next, hstep⟩ : ∃ next, u.step (.paused i result) = some next := by
    simp [step, htick, hphase]
  refine ⟨next, hstep, manager_of_paused htick hphase hstep, ?_⟩
  cases move_of_step hstep with
  | @paused _ tick' _ _ _ htick' hphase' _ =>
      obtain rfl := Option.some.inj (htick.symm.trans htick')
      have hi : i < u.ticks.length := (List.getElem?_eq_some_iff.mp htick).1
      have hcounted : (tick.count result).loop? = some l :=
        (loop?_eq_of_source (tick.source_count result)).trans hloop
      have hstopped : isStopped { u with manager := afterPause u.manager key result }
          (tick.count result) = true := (isStopped_eq_isSignalled hcounted).trans hl
      rw [hphase] at hphase'
      cases hphase'
      rw [proceed, ticks_setTick, List.getElem?_set_self hi, hstopped, Tick.proceed_stopped]

theorem windsDown_of_run {l : LoopId} (hl : u.isSignalled l) {later : List Event} {v : Upkeep}
    (hrun : Run.after? step u later = some v) : u.WindsDown l later v := by
  have hkept : v.isSignalled l ∧ ∀ (i : TickId) (tick : Tick), v.ticks[i]? = some tick →
      tick.loop? = some l → tick.isPausing → u.ticks[i]? = some tick := by
    apply Run.trail_induction (P := fun _ v => v.isSignalled l ∧
      ∀ (i : TickId) (tick : Tick), v.ticks[i]? = some tick → tick.loop? = some l →
        tick.isPausing → u.ticks[i]? = some tick) _ [] ⟨hl, fun _ _ htick _ _ => htick⟩ hrun
    rintro ts v e next ⟨hsignalled, hsame⟩ hstep
    refine ⟨isSignalled_of_step hstep hsignalled, ?_⟩
    intro i tick htick hloop hpausing
    have hbefore := tick_of_isPausing hstep hsignalled htick hloop hpausing
    exact hsame i tick hbefore hloop hpausing
  constructor
  case signalled => exact hkept.1
  case underway => exact hkept.2
  case quiet =>
    intro t ht i tick
    obtain ⟨hbefore, hstep⟩ :=
      Run.before_of_mem_trail (fun hsignalled hstep => isSignalled_of_step hstep hsignalled) hl ht
    exact loop?_ne_of_dispatches hstep hbefore
  case completes =>
    intro i tick key handle rest result htick hloop hphase
    exact completes_of_isSignalled hkept.1 htick hloop hphase result

/-- The laws of the loops of all watchers, when `S` says which watcher started which loop. -/
structure LoopLaws (S : WatcherId → LoopId → Prop) (u : Upkeep) : Prop where
  started : ∀ l < u.loops.length, ∃ w, S w l ∧ ∀ w', S w' l → w' = w
  /-- Of the loops of a watcher one at most is alive and has not been told to stop. -/
  single : ∀ {w l l'}, S w l → S w l' → u.IsActive l → u.IsActive l' → l = l'
  /-- A watcher runs when the loop in its slot is not over. -/
  running : ∀ {w watcher}, u.watchers[w]? = some watcher →
    (u.isRunning watcher ↔ ∃ (l : LoopId) (loop : Loop),
      u.slotOf? w = some l ∧ u.loops[l]? = some loop ∧ loop.isOver = false) ∧
    (u.isRunning watcher ↔ ∃ l, S w l ∧ u.IsActive l)
  /-- To start a watcher that runs changes nothing. -/
  start : ∀ {w watcher}, u.installed? = some w → u.watchers[w]? = some watcher →
    ∃ next, u.step .start = some next ∧
      if u.isRunning watcher then next = u
      else Starts ⟨u, .start, next⟩ w u.loops.length ∧ next.IsActive u.loops.length
  answer : ∀ {w watcher}, u.installed? = some w → u.watchers[w]? = some watcher →
    ∀ s : Simulation, s.router.upkeep = u →
      (s.run .startWatcher).1 = .flag !(u.isRunning watcher)
  stop : ∀ {w l}, u.installed? = some w → S w l → u.IsActive l →
    ∃ next, u.step .stop = some next ∧ next.isSignalled l
  /-- The loops of a watcher that has gone are over, or have been told to stop. -/
  drop : ∀ {w l}, ¬u.isHeld w → S w l → ¬u.IsActive l
  /-- A loop has one tick at a time. -/
  oneTick : ∀ {l : LoopId} {i j : TickId} {tick tick' : Tick}, u.ticks[i]? = some tick →
    u.ticks[j]? = some tick' → tick.loop? = some l → tick'.loop? = some l →
    tick.isOver = false → tick'.isOver = false → i = j
  windDown : ∀ {l later v}, u.isSignalled l → Run.after? step u later = some v →
    u.WindsDown l later v

theorem step_start {w : WatcherId} {watcher : Watcher} (hinstalled : u.installed? = some w)
    (hwatcher : u.watchers[w]? = some watcher) :
    ∃ next, u.step .start = some next ∧
      if u.isRunning watcher then next = u
      else Starts ⟨u, .start, next⟩ w u.loops.length ∧ next.IsActive u.loops.length := by
  refine ⟨u.start w, by simp [step, hinstalled], ?_⟩
  split
  next hrunning => simp [Upkeep.start, hwatcher, hrunning]
  next hrunning =>
    have hstart : (u.start w).loops = u.loops ++ [⟨watcher.schedule, false, .starting⟩] := by
      simp [Upkeep.start, hwatcher, hrunning]
    refine ⟨⟨rfl, hinstalled, rfl, ?_⟩, ⟨watcher.schedule, false, .starting⟩, ?_, rfl, rfl⟩
    · rw [hstart, List.length_append]
      exact Nat.lt_succ_self _
    · rw [hstart]
      exact List.getElem?_concat_length

/-- Whatever is done with watchers and loops, in whatever order: one loop of a watcher at most
is alive and has not been told to stop, a watcher starts a loop when its slot holds none that
is not over, and a loop that has been told to stop begins no other pause call. -/
theorem watcher_lifecycle (hrun : Run.after? step (ofManager m) es = some u) :
    u.LoopLaws (StartedBy (Run.trail step (ofManager m) es)) := by
  obtain ⟨htended, hfreed, hticks⟩ := invariants_of_run hrun
  constructor
  case started =>
    intro l hl
    obtain ⟨w, hw⟩ := htended.started hl
    exact ⟨w, hw, fun w' hw' => htended.unique hw' hw⟩
  case single =>
    intro w l l' hl hl' hactive hactive'
    have hslot := htended.active hl hactive
    have hslot' := htended.active hl' hactive'
    exact Option.some.inj (hslot.symm.trans hslot')
  case running =>
    intro w watcher hwatcher
    refine ⟨isRunning_iff hwatcher, (isRunning_iff hwatcher).trans ⟨?_, ?_⟩⟩
    · rintro ⟨l, loop, hslot, hloop, hover⟩
      obtain ⟨hstarted, hquiet⟩ := htended.slot hslot
      rw [isSignalled, hloop] at hquiet
      exact ⟨l, hstarted, loop, hloop, hover, hquiet⟩
    · rintro ⟨l, hstarted, hactive⟩
      have hslot := htended.active hstarted hactive
      obtain ⟨loop, hloop, hover, _⟩ := hactive
      exact ⟨l, loop, hslot, hloop, hover⟩
  case start => exact step_start
  case answer =>
    rintro w watcher hinstalled hwatcher s rfl
    simp [Simulation.run, Simulation.ofWatcher, watcher?, hinstalled, hwatcher]
  case stop =>
    intro w l hinstalled hstarted hactive
    refine ⟨u.stop w, by simp [step, hinstalled], ?_⟩
    obtain ⟨loop, hloop, _⟩ := id hactive
    rw [isSignalled, loop_stop, if_pos (htended.active hstarted hactive), hloop]
    rfl
  case drop =>
    intro w l hfree hstarted hactive
    have hslot := htended.active hstarted hactive
    rw [hfreed w hfree] at hslot
    cases hslot
  case oneTick => exact hticks.eq_of_loop
  case windDown =>
    intro l later v hl
    exact windsDown_of_run hl

/-- A loop is in the middle of a pause call when its watcher is stopped and started again. -/
def restarted : List Event :=
  [.manager (.lookup 1 "alpha"),
    .manager (.described 1 (.ok [⟨"vm-1", "10.0.0.5", "Running", ["alpha"]⟩])),
    .manager (.lookup 2 "beta"),
    .manager (.described 2 (.ok [⟨"vm-2", "10.0.0.6", "Running", ["beta"]⟩])),
    .install ⟨.ofSeconds 10, .ofSeconds 15⟩, .start, .enter 0, .manager (.elapse (.ofSeconds 20)),
    .ring 0, .begin 0 ["alpha", "beta"], .stop, .start]

/-- The pause call ends, and the old loop takes one more tick before it sees the signal. -/
def windingDown : List Event :=
  [.paused 0 .done, .settle 0, .manager (.elapse (.ofSeconds 10)), .ring 0, .begin 1 ["beta"],
    .settle 0, .quit 0]

theorem watcher_lifecycle_restarted :
    ∃ u v, Run.after? step (ofManager (.start Manager.defaultResumeDeadline)) restarted = some u ∧
      Run.after? step u windingDown = some v ∧ u.WindsDown 0 windingDown v ∧ u.IsActive 1 ∧
      v.manager.state? "alpha" = some .paused ∧ v.manager.state? "beta" = some .running := by
  obtain ⟨u, v, hrun, hlater, hsignalled, hactive, hpaused, hrunning⟩ :
      ∃ u v, Run.after? step (ofManager (.start Manager.defaultResumeDeadline)) restarted = some u ∧
        Run.after? step u windingDown = some v ∧ u.isSignalled 0 ∧ u.IsActive 1 ∧
        v.manager.state? "alpha" = some .paused ∧ v.manager.state? "beta" = some .running :=
    ⟨_, _, rfl, rfl, rfl, ⟨_, rfl, rfl, rfl⟩, rfl, rfl⟩
  have hlaws := watcher_lifecycle hrun
  have hdown := hlaws.windDown hsignalled hlater
  exact ⟨u, v, hrun, hlater, hdown, hactive, hpaused, hrunning⟩

end WakeRouter.Upkeep
