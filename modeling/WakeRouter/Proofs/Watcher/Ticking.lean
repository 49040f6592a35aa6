import WakeRouter.Proofs.Config.Effective
import WakeRouter.Proofs.Manager.Idleness
import WakeRouter.Proofs.Watcher.Loops
import WakeRouter.Simulation.Service

/-!
# Loops that keep ticking

A loop sets up its ticker once, with the interval that the settings ask for.  That interval is
never empty, but nothing bounds it: the loop breaks just if its first tick would lead out of
the clock.  A loop that has set up its ticker never breaks any more; it waits for its next tick
or for the end of the one under way, and ends only when it is told to.
-/

namespace WakeRouter

theorem RoutingConfig.isZero_watchInterval (c : RoutingConfig) : c.watchInterval.isZero = false :=
  Duration.isZero_orDefault c.watchInterval? rfl

namespace Ticker

variable {now : Instant} {interval : Duration}

theorem first?_eq_none_iff (hinterval : interval.isZero = false) :
    first? now interval = none ↔ clockBound ≤ now + interval.nanos := by
  simp [first?, hinterval]

theorem eq_of_first? {due : Instant} (hfirst : first? now interval = some due) :
    due = now + interval.nanos := by
  simp only [first?, Option.ite_none_left_eq_some, Option.ite_none_right_eq_some,
    Option.some.injEq] at hfirst
  exact hfirst.2.2.symm

/-- No tick is further ahead than one interval. -/
theorem next_le {due : Instant} (hdue : due ≤ now) :
    next now due interval ≤ now + interval.nanos := by
  unfold next
  split
  · exact Nat.le_refl _
  · exact Nat.add_le_add_right hdue _

end Ticker

/-- The instant at which a loop ticks next. -/
def LoopPhase.due? : LoopPhase → Option Instant
  | .waiting due | .ticking _ due => some due
  | .starting | .finished | .broken => none

namespace Upkeep

variable {u next : Upkeep}

theorem now_le_of_step {e : Event} (hstep : u.step e = some next) :
    u.manager.now ≤ next.manager.now := by
  rcases manager_of_step hstep with hsame | ⟨heard, hheard, _⟩
  · exact Nat.le_of_eq (congrArg Manager.now hsame.symm)
  · exact Manager.now_le_of_step hheard

/-! ## When a loop was set up -/

/-- The loop whose ticker is set up with the event. -/
def Event.enters? : Event → Option LoopId
  | .enter l => some l
  | _ => none

/-- The instant at which the loop set up its ticker. -/
def enteredAt? (ts : List (Run.Transition Upkeep Event)) (l : LoopId) : Option Instant :=
  (ts.find? fun t => t.event.enters? == some l).map fun t => t.before.manager.now

variable {ts : List (Run.Transition Upkeep Event)} {l : LoopId} {e : Event}

theorem enteredAt?_concat_of_ne (hother : e ≠ .enter l) :
    enteredAt? (ts ++ [⟨u, e, next⟩]) l = enteredAt? ts l := by
  have hnone : (e.enters? == some l) = false := by
    cases e with
    | enter l' => simpa [Event.enters?] using hother
    | _ => rfl
  simp [enteredAt?, List.find?_append, hnone]

theorem enteredAt?_concat_enter (hfresh : enteredAt? ts l = none) :
    enteredAt? (ts ++ [⟨u, .enter l, next⟩]) l = some u.manager.now := by
  have hnone : ts.find? (fun t => t.event.enters? == some l) = none := by
    simpa [enteredAt?] using hfresh
  have hown : ((Event.enter l).enters? == some l) = true := by simp [Event.enters?]
  simp [enteredAt?, List.find?_append, hnone, hown]

/-! ## What becomes of a loop -/

/-- What is known of a loop from the instant at which it set up its ticker. -/
structure LoopKnown (entered? : Option Instant) (now : Instant) (loop : Loop) : Prop where
  starting : loop.phase = .starting ↔ entered? = none
  broken : ∀ {at_}, entered? = some at_ →
    (loop.phase = .broken ↔ Ticker.first? at_ loop.schedule.interval = none)
  finished : loop.phase = .finished → loop.stopping
  ahead : ∀ {due}, loop.phase.due? = some due → due ≤ now + loop.schedule.interval.nanos

/-- The same, also of a loop that is not there. -/
def Known (entered? : Option Instant) (now : Instant) : Option Loop → Prop
  | none => entered? = none
  | some loop => LoopKnown entered? now loop

variable {entered? : Option Instant} {now now' : Instant} {loop : Loop}

theorem loopKnown_starting (hphase : loop.phase = .starting) : LoopKnown none now loop := by
  constructor <;> simp [hphase, LoopPhase.due?]

theorem LoopKnown.later (hknown : LoopKnown entered? now loop) (hnow : now ≤ now') :
    LoopKnown entered? now' loop :=
  ⟨hknown.starting, hknown.broken, hknown.finished,
    fun hdue => Nat.le_trans (hknown.ahead hdue) (Nat.add_le_add_right hnow _)⟩

theorem LoopKnown.signal (hknown : LoopKnown entered? now loop) :
    LoopKnown entered? now { loop with stopping := true } :=
  ⟨hknown.starting, hknown.broken, fun _ => rfl, hknown.ahead⟩

theorem loopKnown_entry (loop : Loop) (now : Instant) :
    LoopKnown (some now) now { loop with phase := loop.entry now } := by
  cases hfirst : Ticker.first? now loop.schedule.interval with
  | none =>
      have hentry : loop.entry now = .broken := by simp [Loop.entry, hfirst]
      constructor <;> simp [hentry, hfirst, LoopPhase.due?]
  | some due =>
      have hentry : loop.entry now = .waiting due := by simp [Loop.entry, hfirst]
      have hdue := Ticker.eq_of_first? hfirst
      constructor <;> simp [hentry, hfirst, LoopPhase.due?, hdue]

/-- A loop that has set up its ticker goes on to another phase. -/
theorem LoopKnown.goOn (hknown : LoopKnown entered? now loop) {phase : LoopPhase} {due : Instant}
    (hold : loop.phase.due? = some due) (hstarting : phase ≠ .starting) (hbroken : phase ≠ .broken)
    (hfinished : phase = .finished → loop.stopping)
    (hahead : ∀ {due}, phase.due? = some due → due ≤ now + loop.schedule.interval.nanos) :
    LoopKnown entered? now { loop with phase := phase } := by
  have hset : loop.phase ≠ .starting ∧ loop.phase ≠ .broken := by
    constructor <;> (intro hphase; simp [hphase, LoopPhase.due?] at hold)
  constructor
  case starting => simp [hstarting, ← hknown.starting, hset.1]
  case broken =>
    intro at_ hat
    simp [hbroken, ← hknown.broken hat, hset.2]
  case finished => exact hfinished
  case ahead => exact hahead

theorem known_of_change {old? new? : Option Loop} (hchange : u.LoopChange l e old? new?)
    (hnow : u.manager.now ≤ next.manager.now)
    (hknown : Known (enteredAt? ts l) u.manager.now old?) :
    Known (enteredAt? (ts ++ [⟨u, e, next⟩]) l) next.manager.now new? := by
  cases hchange with
  | absent hother => rwa [enteredAt?_concat_of_ne hother]
  | started hother hphase =>
      rw [enteredAt?_concat_of_ne hother, show enteredAt? ts l = none from hknown]
      exact loopKnown_starting hphase
  | kept hother =>
      rw [enteredAt?_concat_of_ne hother]
      exact LoopKnown.later hknown hnow
  | signalled hother =>
      rw [enteredAt?_concat_of_ne hother]
      exact (LoopKnown.later hknown hnow).signal
  | entered hphase =>
      rw [enteredAt?_concat_enter ((LoopKnown.starting hknown).mp hphase)]
      exact (loopKnown_entry _ _).later hnow
  | rung hphase hdue =>
      rw [enteredAt?_concat_of_ne (by simp)]
      refine LoopKnown.later (LoopKnown.goOn hknown (congrArg LoopPhase.due? hphase) (by simp)
        (by simp) (by simp) ?_) hnow
      rintro due' ⟨rfl⟩
      exact Ticker.next_le hdue
  | settled hphase hover =>
      rw [enteredAt?_concat_of_ne (by simp)]
      refine LoopKnown.later (LoopKnown.goOn hknown (congrArg LoopPhase.due? hphase) (by simp)
        (by simp) (by simp) ?_) hnow
      rintro due' ⟨rfl⟩
      exact LoopKnown.ahead hknown (congrArg LoopPhase.due? hphase)
  | quit hphase hstopping =>
      rw [enteredAt?_concat_of_ne (by simp)]
      exact LoopKnown.later (LoopKnown.goOn hknown (congrArg LoopPhase.due? hphase) (by simp)
        (by simp) (fun _ => hstopping) (by simp [LoopPhase.due?])) hnow

variable {m : Manager} {es : List Event}

theorem known_of_run (hrun : Run.after? step (ofManager m) es = some u) (l : LoopId) :
    Known (enteredAt? (Run.trail step (ofManager m) es) l) u.manager.now u.loops[l]? := by
  have hfirst : Known (enteredAt? [] l) (ofManager m).manager.now (ofManager m).loops[l]? := rfl
  apply Run.trail_induction
    (P := fun ts v => Known (enteredAt? ts l) v.manager.now v.loops[l]?) _ [] hfirst hrun
  intro ts v e next hknown hstep
  exact known_of_change (loopChange_of_step hstep l) (now_le_of_step hstep) hknown

/-! ## The law of a loop -/

/-- What a loop that set up its ticker at that instant comes to. -/
structure KeepsTicking (u : Upkeep) (l : LoopId) (loop : Loop) (entered? : Option Instant) :
    Prop where
  period : loop.schedule.interval.isZero = false
  broken_iff : loop.phase = .broken ↔ ∃ at_, entered? = some at_ ∧
    Ticker.clockBound ≤ at_ + loop.schedule.interval.nanos
  /-- Nothing else ends a loop before it is told to stop. -/
  ended : loop.isOver → loop.phase = .broken ∨ loop.stopping
  /-- Its next tick is one interval ahead at most. -/
  ahead : ∀ {due}, loop.phase.due? = some due →
    due ≤ u.manager.now + loop.schedule.interval.nanos
  rings : ∀ {due}, loop.phase = .waiting due → due ≤ u.manager.now →
    ∃ next, u.step (.ring l) = some next ∧
      next.ticks = u.ticks ++ [.scheduled loop.schedule.idleTimeout (.loop l)]
  /-- When its tick is over, however that came, it waits for the next one. -/
  settles : ∀ {t tick due}, loop.phase = .ticking t due → u.ticks[t]? = some tick → tick.isOver →
    ∃ next, u.step (.settle l) = some next ∧
      next.loops[l]? = some { loop with phase := .waiting due }

theorem step_ring {due : Instant} (hloop : u.loops[l]? = some loop)
    (hphase : loop.phase = .waiting due) (hdue : due ≤ u.manager.now) :
    ∃ next, u.step (.ring l) = some next ∧
      next.ticks = u.ticks ++ [.scheduled loop.schedule.idleTimeout (.loop l)] := by
  refine ⟨(u.setLoop l fun loop' => { loop' with
    phase := .ticking u.ticks.length
      (Ticker.next u.manager.now due loop.schedule.interval) }).schedule
    (.scheduled loop.schedule.idleTimeout (.loop l)), ?_, rfl⟩
  simp [step, hloop, hphase, hdue]

theorem step_settle {t : TickId} {tick : Tick} {due : Instant} (hloop : u.loops[l]? = some loop)
    (hphase : loop.phase = .ticking t due) (htick : u.ticks[t]? = some tick) (hover : tick.isOver) :
    ∃ next, u.step (.settle l) = some next ∧
      next.loops[l]? = some { loop with phase := .waiting due } := by
  refine ⟨u.setLoop l fun loop => { loop with phase := .waiting due }, ?_, ?_⟩
  · simp [step, hloop, hphase, htick, hover]
  · rw [loop_setLoop, if_pos rfl, hloop]
    rfl

/-- Whatever the settings, accepted or not: a loop that takes its interval from them breaks
just if it sets up its ticker when one interval from then is out of the clock, and otherwise
keeps ticking until it is told to stop. -/
theorem loop_breaks_iff (c : Config) (hrun : Run.after? step (ofManager m) es = some u)
    (hloop : u.loops[l]? = some loop)
    (hschedule : loop.schedule = ⟨c.routing.watchInterval, c.routing.idleTimeout⟩) :
    u.KeepsTicking l loop (enteredAt? (Run.trail step (ofManager m) es) l) := by
  have hknown := known_of_run hrun l
  rw [hloop] at hknown
  have hperiod : loop.schedule.interval.isZero = false := by
    rw [hschedule]
    exact c.routing.isZero_watchInterval
  constructor
  case period => exact hperiod
  case broken_iff =>
    constructor
    · intro hbroken
      cases hentered : enteredAt? (Run.trail step (ofManager m) es) l with
      | none =>
          have hstarting := (LoopKnown.starting hknown).mpr hentered
          rw [hbroken] at hstarting
          cases hstarting
      | some at_ =>
          have hnone := (LoopKnown.broken hknown hentered).mp hbroken
          exact ⟨at_, rfl, (Ticker.first?_eq_none_iff hperiod).mp hnone⟩
    · rintro ⟨at_, hentered, hout⟩
      exact (LoopKnown.broken hknown hentered).mpr ((Ticker.first?_eq_none_iff hperiod).mpr hout)
  case ended =>
    intro hover
    cases hphase : loop.phase with
    | broken => exact .inl rfl
    | finished => exact .inr (LoopKnown.finished hknown hphase)
    | starting | waiting | ticking => simp [Loop.isOver, hphase] at hover
  case ahead => exact LoopKnown.ahead hknown
  case rings => exact step_ring hloop
  case settles => exact step_settle hloop

/-- The longest period that a first tick at the start of the run leaves room for. -/
def brinkConfig : Config where
  controlPlane := ⟨"http://127.0.0.1:8080", "s3cret", "apps"⟩
  routing := ⟨none, none, some (.ofSeconds (2 ^ 63 - 1)), none⟩
  server := ⟨none, none⟩

def brinkSchedule : Schedule :=
  ⟨brinkConfig.routing.watchInterval, brinkConfig.routing.idleTimeout⟩

/-- One loop is started at once, and another one second later. -/
def brink : List Event :=
  [.install brinkSchedule, .start, .enter 0, .manager (.elapse (.ofSeconds 1)), .stop, .start,
    .enter 1]

theorem loop_breaks_iff_brink :
    brinkConfig.check none = .ok () ∧
      ∃ u first second,
        Run.after? step (ofManager (.start Manager.defaultResumeDeadline)) brink = some u ∧
        u.loops = [first, second] ∧
        u.KeepsTicking 0 first (some 0) ∧ first.phase ≠ .broken ∧
        u.KeepsTicking 1 second (some 1000000000) ∧ second.phase = .broken := by
  obtain ⟨u, hrun, hloops⟩ :
      ∃ u, Run.after? step (ofManager (.start Manager.defaultResumeDeadline)) brink = some u ∧
        u.loops = [⟨brinkSchedule, true, .waiting brinkSchedule.interval.nanos⟩,
          ⟨brinkSchedule, false, .broken⟩] :=
    ⟨_, rfl, rfl⟩
  refine ⟨Config.eq_ok_of_toOption (by decide +kernel), u, _, _, hrun, hloops, ?_, by simp, ?_,
    rfl⟩
  · exact loop_breaks_iff brinkConfig hrun (l := 0) (by rw [hloops]; rfl) rfl
  · exact loop_breaks_iff brinkConfig hrun (l := 1) (by rw [hloops]; rfl) rfl

/-- More seconds than the clock can show. -/
def eonsText : String :=
  "[control_plane]\nurl = 'http://vms'\ntoken = 't'\nhost_group = 'a'\n" ++
    "[routing]\nwatch_interval = '18446744073709551615s'\n"

def eonsConfig : Config where
  controlPlane := ⟨"http://vms", "t", "a"⟩
  routing := ⟨none, none, some (.ofSeconds 18446744073709551615), none⟩
  server := ⟨none, none⟩

/-- The service takes that text, but there is no instant at which its ticker could be set up,
and the loop that it starts is lost at once. -/
theorem not_ticking_eons :
    Config.load ⟨none, none⟩ "relight.toml" (.ok (Text.toUtf8 eonsText.toList)) none none =
        .ok eonsConfig ∧
      (∀ now, Ticker.first? now eonsConfig.routing.watchInterval = none) ∧
      (Service.start eonsConfig [] 8080).router.upkeep.loops =
        [⟨⟨eonsConfig.routing.watchInterval, eonsConfig.routing.idleTimeout⟩, false, .broken⟩] := by
  refine ⟨Config.eq_ok_of_toOption (by decide +kernel), ?_, by decide +kernel⟩
  intro now
  rw [Ticker.first?_eq_none_iff eonsConfig.routing.isZero_watchInterval]
  have hlong : Ticker.clockBound ≤ eonsConfig.routing.watchInterval.nanos := by decide
  exact Nat.le_trans hlong (Nat.le_add_left _ now)

end Upkeep

end WakeRouter
