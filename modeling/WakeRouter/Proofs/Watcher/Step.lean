import WakeRouter.Proofs.Run
import WakeRouter.Watcher.Upkeep

/-!
# What one event does to the manager, its watchers and their ticks

`Upkeep.Move` lists the events with their guards and what becomes of the upkeep.  The lemmas
before it say which operations leave the manager and the ticks alone, and how far a tick gets
that goes through its keys.
-/

namespace WakeRouter

namespace Tick

theorem phase_proceed (handleOf : String → Option String) (stopped : Bool) (t : Tick)
    (keys : List String) :
    (t.proceed handleOf stopped keys).phase = .done ∨
      ∃ skipped key handle rest, keys = skipped ++ key :: rest ∧ handleOf key = some handle ∧
        (t.proceed handleOf stopped keys).phase = .pausing key handle rest := by
  -- Each key that is skipped only adds to the count of skipped keys.
  induction keys generalizing t with
  | nil => exact .inl rfl
  | cons key rest ih =>
      unfold proceed
      split
      · exact .inl rfl
      cases hhandle : handleOf key with
      | some handle => exact .inr ⟨[], key, handle, rest, rfl, hhandle, rfl⟩
      | none =>
          rcases ih { t with stats := { t.stats with skipped := t.stats.skipped + 1 } } with
            hdone | ⟨skipped, next, handle, later, rfl, hnext, hpausing⟩
          · exact .inl hdone
          · exact .inr ⟨key :: skipped, next, handle, later, rfl, hnext, hpausing⟩

theorem proceed_stopped (handleOf : String → Option String) (t : Tick) (keys : List String) :
    t.proceed handleOf true keys = { t with phase := .done } := by
  cases keys <;> rfl

@[simp] theorem source_proceed (handleOf : String → Option String) (stopped : Bool) (t : Tick)
    (keys : List String) : (t.proceed handleOf stopped keys).source = t.source := by
  induction keys generalizing t with
  | nil => rfl
  | cons key rest ih =>
      unfold proceed
      split
      · rfl
      cases handleOf key with
      | none => exact ih _
      | some handle => rfl

@[simp] theorem source_count (result : Acknowledgement) (t : Tick) :
    (t.count result).source = t.source := by
  cases result <;> rfl

end Tick

namespace Upkeep

/-! ## Operations on watchers and loops -/

/-- The manager and the ticks are the same. -/
structure SameWork (u u' : Upkeep) : Prop where
  manager_eq : u'.manager = u.manager
  ticks_eq : u'.ticks = u.ticks

variable (u : Upkeep)

theorem sameWork_stop (w : WatcherId) : SameWork u (u.stop w) := by
  unfold stop
  split <;> exact ⟨rfl, rfl⟩

theorem sameWork_release (w : WatcherId) : SameWork u (u.release w) := by
  unfold release
  split
  · exact ⟨rfl, rfl⟩
  · exact sameWork_stop u w

theorem sameWork_discard : SameWork u u.discard := by
  unfold discard
  split
  · exact ⟨rfl, rfl⟩
  next w _ =>
    obtain ⟨hmanager, hticks⟩ := sameWork_release { u with installed? := none } w
    exact ⟨hmanager, hticks⟩

theorem sameWork_install (schedule : Schedule) : SameWork u (u.install schedule) := by
  obtain ⟨hmanager, hticks⟩ := sameWork_discard u
  exact ⟨hmanager, hticks⟩

theorem sameWork_start (w : WatcherId) : SameWork u (u.start w) := by
  unfold start
  split
  · exact ⟨rfl, rfl⟩
  split <;> exact ⟨rfl, rfl⟩

theorem sameWork_setTick (t : TickId) (tick : Tick) :
    SameWork { u with ticks := u.ticks.set t tick } (u.setTick t tick) := by
  unfold setTick
  cases tick.watcher? with
  | none => exact ⟨rfl, rfl⟩
  | some w => exact sameWork_release _ w

@[simp] theorem manager_setTick (t : TickId) (tick : Tick) :
    (u.setTick t tick).manager = u.manager :=
  (sameWork_setTick u t tick).manager_eq

@[simp] theorem ticks_setTick (t : TickId) (tick : Tick) :
    (u.setTick t tick).ticks = u.ticks.set t tick :=
  (sameWork_setTick u t tick).ticks_eq

/-! ## Events -/

/-- The manager hears of the end of a pause call. -/
def afterPause (m : Manager) (key : String) : Acknowledgement → Manager
  | .done => m.markPaused key
  | .failed _ => m

/-- The events that can happen, and what each does. -/
inductive Move (u : Upkeep) : Event → Upkeep → Prop
  | manager {e : Manager.Event} {next : Manager} (hstep : u.manager.step e = some next) :
      Move u (.manager e) { u with manager := next }
  | install (schedule : Schedule) : Move u (.install schedule) (u.install schedule)
  | discard : Move u .discard u.discard
  | start {w : WatcherId} (hinstalled : u.installed? = some w) : Move u .start (u.start w)
  | stop {w : WatcherId} (hinstalled : u.installed? = some w) : Move u .stop (u.stop w)
  | enter {l : LoopId} {loop : Loop} (hloop : u.loops[l]? = some loop)
      (hphase : loop.phase = .starting) :
      Move u (.enter l) (u.setLoop l fun loop' => { loop' with
        phase :=
          match Ticker.first? u.manager.now loop.schedule.interval with
          | some due => .waiting due
          | none => .broken })
  | ring {l : LoopId} {loop : Loop} {due : Instant} (hloop : u.loops[l]? = some loop)
      (hphase : loop.phase = .waiting due) (hdue : due ≤ u.manager.now) :
      Move u (.ring l)
        ((u.setLoop l fun loop' => { loop' with
          phase := .ticking u.ticks.length
            (Ticker.next u.manager.now due loop.schedule.interval) }).schedule
          (.scheduled loop.schedule.idleTimeout (.loop l)))
  | settle {l : LoopId} {loop : Loop} {t : TickId} {next : Instant}
      (hloop : u.loops[l]? = some loop) (hphase : loop.phase = .ticking t next)
      (hover : (u.ticks[t]?).all Tick.isOver) :
      Move u (.settle l) (u.setLoop l fun loop' => { loop' with phase := .waiting next })
  | quit {l : LoopId} {loop : Loop} {due : Instant} (hloop : u.loops[l]? = some loop)
      (hphase : loop.phase = .waiting due) (hstopping : loop.stopping) :
      Move u (.quit l) (u.setLoop l fun loop' => { loop' with phase := .finished })
  | tick {w : WatcherId} {watcher : Watcher} (hinstalled : u.installed? = some w)
      (hwatcher : u.watchers[w]? = some watcher) :
      Move u .tick (u.schedule (.scheduled watcher.schedule.idleTimeout (.hand w)))
  | begin {t : TickId} {tick : Tick} {keys : List String} (htick : u.ticks[t]? = some tick)
      (hphase : tick.phase = .scheduled)
      (hkeys : keys.Perm (u.manager.idleKeys tick.idleTimeout)) :
      Move u (.begin t keys) (u.begin t tick keys)
  | paused {t : TickId} {tick : Tick} {key handle : String} {rest : List String}
      (htick : u.ticks[t]? = some tick) (hphase : tick.phase = .pausing key handle rest)
      (result : Acknowledgement) :
      Move u (.paused t result)
        (({ u with manager := afterPause u.manager key result }).proceed t (tick.count result)
          rest)
  | breakDown {t : TickId} {tick : Tick} {key handle : String} {rest : List String}
      (htick : u.ticks[t]? = some tick) (hphase : tick.phase = .pausing key handle rest) :
      Move u (.breakDown t) (u.setTick t { tick with phase := .broken })
  | dropTick {t : TickId} {tick : Tick} (htick : u.ticks[t]? = some tick)
      (hover : tick.isOver = false) (hloop : tick.loop? = none) :
      Move u (.dropTick t) (u.setTick t { tick with phase := .dropped })

variable {u}

theorem move_of_step {next : Upkeep} {e : Event} (hstep : u.step e = some next) :
    u.Move e next := by
  cases e with
  | manager e =>
      obtain ⟨m, hm, rfl⟩ := Option.map_eq_some_iff.mp hstep
      exact .manager hm
  | install schedule =>
      obtain rfl := Option.some.inj hstep
      exact .install schedule
  | discard =>
      obtain rfl := Option.some.inj hstep
      exact .discard
  | start =>
      obtain ⟨w, hw, rfl⟩ := Option.map_eq_some_iff.mp hstep
      exact .start hw
  | stop =>
      obtain ⟨w, hw, rfl⟩ := Option.map_eq_some_iff.mp hstep
      exact .stop hw
  | enter l =>
      simp only [step, bind, Option.bind_eq_some_iff] at hstep
      obtain ⟨loop, hloop, hstep⟩ := hstep
      split at hstep
      next hphase =>
        obtain rfl := Option.some.inj hstep
        exact .enter hloop hphase
      next => cases hstep
  | ring l =>
      simp only [step, bind, Option.bind_eq_some_iff] at hstep
      obtain ⟨loop, hloop, hstep⟩ := hstep
      split at hstep
      next due hphase =>
        rw [Option.ite_none_right_eq_some] at hstep
        obtain ⟨hdue, hstep⟩ := hstep
        obtain rfl := Option.some.inj hstep
        exact .ring hloop hphase hdue
      next => cases hstep
  | settle l =>
      simp only [step, bind, Option.bind_eq_some_iff] at hstep
      obtain ⟨loop, hloop, hstep⟩ := hstep
      split at hstep
      next hphase =>
        rw [Option.ite_none_right_eq_some] at hstep
        obtain ⟨hover, hstep⟩ := hstep
        obtain rfl := Option.some.inj hstep
        exact .settle hloop hphase hover
      next => cases hstep
  | quit l =>
      simp only [step, bind, Option.bind_eq_some_iff] at hstep
      obtain ⟨loop, hloop, hstep⟩ := hstep
      split at hstep
      next hphase =>
        rw [Option.ite_none_right_eq_some] at hstep
        obtain ⟨hstopping, hstep⟩ := hstep
        obtain rfl := Option.some.inj hstep
        exact .quit hloop hphase hstopping
      next => cases hstep
  | tick =>
      simp only [step, bind, Option.bind_eq_some_iff] at hstep
      obtain ⟨w, hw, watcher, hwatcher, hstep⟩ := hstep
      obtain rfl := Option.some.inj hstep
      exact .tick hw hwatcher
  | begin t keys =>
      simp only [step, bind, Option.bind_eq_some_iff] at hstep
      obtain ⟨tick, htick, hstep⟩ := hstep
      split at hstep
      next hphase =>
        rw [Option.ite_none_right_eq_some] at hstep
        obtain ⟨hkeys, hstep⟩ := hstep
        obtain rfl := Option.some.inj hstep
        exact .begin htick hphase (List.isPerm_iff.mp hkeys)
      next => cases hstep
  | paused t result =>
      simp only [step, bind, Option.bind_eq_some_iff] at hstep
      obtain ⟨tick, htick, hstep⟩ := hstep
      split at hstep
      next hphase =>
        obtain rfl := Option.some.inj hstep
        have hmove := Move.paused htick hphase result
        cases result <;> exact hmove
      next => cases hstep
  | breakDown t =>
      simp only [step, bind, Option.bind_eq_some_iff] at hstep
      obtain ⟨tick, htick, hstep⟩ := hstep
      split at hstep
      next hphase =>
        obtain rfl := Option.some.inj hstep
        exact .breakDown htick hphase
      next => cases hstep
  | dropTick t =>
      simp only [step, bind, Option.bind_eq_some_iff] at hstep
      obtain ⟨tick, htick, hstep⟩ := hstep
      rw [Option.ite_none_left_eq_some] at hstep
      obtain ⟨hguard, hstep⟩ := hstep
      obtain rfl := Option.some.inj hstep
      have hfree : tick.isOver = false ∧ tick.loop? = none := by simpa using hguard
      exact .dropTick htick hfree.1 hfree.2

theorem manager_of_step {next : Upkeep} {e : Event} (hstep : u.step e = some next) :
    next.manager = u.manager ∨
      ∃ heard, u.manager.step heard = some next.manager ∧
        (e = .manager heard ∨
          ∃ t tick key handle rest, e = .paused t .done ∧ u.ticks[t]? = some tick ∧
            tick.phase = .pausing key handle rest ∧ heard = .markPaused key) := by
  cases move_of_step hstep with
  | manager hheard => exact .inr ⟨_, hheard, .inl rfl⟩
  | install schedule => exact .inl (sameWork_install u schedule).manager_eq
  | discard => exact .inl (sameWork_discard u).manager_eq
  | start => exact .inl (sameWork_start u _).manager_eq
  | stop => exact .inl (sameWork_stop u _).manager_eq
  | enter | ring | settle | quit | tick => exact .inl rfl
  | begin | breakDown | dropTick => exact .inl (manager_setTick u _ _)
  | @paused t tick key handle rest htick hphase result =>
      have hmanager := manager_setTick { u with manager := afterPause u.manager key result } t
      cases result with
      | failed cause => exact .inl (hmanager _)
      | done =>
          refine .inr ⟨.markPaused key, congrArg some (hmanager _).symm, .inr ?_⟩
          exact ⟨t, tick, key, handle, rest, rfl, htick, hphase, rfl⟩

end Upkeep

end WakeRouter
