import WakeRouter.Proofs.Watcher.Step

/-!
# Watchers and their loops

The slot of a watcher names the loop that it started last, until that loop is told to stop.
So a loop that is alive, and has not been told to stop, is in the slot of the watcher that
started it; and the slot of a watcher that nobody has hold of is empty.
-/

namespace WakeRouter.Upkeep

/-- The loop in the slot of a watcher. -/
def slotOf? (u : Upkeep) (w : WatcherId) : Option LoopId :=
  (u.watchers[w]?).bind Watcher.slot?

/-- Whether the loop has been told to stop. -/
def isSignalled (u : Upkeep) (l : LoopId) : Bool :=
  (u.loops[l]?).any Loop.stopping

/-- The loop is alive and has not been told to stop. -/
def IsActive (u : Upkeep) (l : LoopId) : Prop :=
  ∃ loop, u.loops[l]? = some loop ∧ loop.isOver = false ∧ loop.stopping = false

variable {u : Upkeep}

theorem isRunning_iff {w : WatcherId} {watcher : Watcher}
    (hwatcher : u.watchers[w]? = some watcher) :
    u.isRunning watcher ↔
      ∃ l loop, u.slotOf? w = some l ∧ u.loops[l]? = some loop ∧ loop.isOver = false := by
  have hslot : u.slotOf? w = watcher.slot? := by simp [slotOf?, hwatcher]
  rw [hslot, isRunning]
  cases watcher.slot? with
  | none => simp
  | some l => cases hloop : u.loops[l]? <;> simp [isLoopOver, hloop]

/-! ## Operations -/

theorem slotOf?_setSlot {w : WatcherId} (hw : w < u.watchers.length) (slot? : Option LoopId)
    (w' : WatcherId) :
    (u.setSlot w slot?).slotOf? w' = if w' = w then slot? else u.slotOf? w' := by
  unfold slotOf? setSlot
  rw [List.getElem?_modify]
  by_cases hsame : w' = w
  · subst hsame
    simp [List.getElem?_eq_getElem hw]
  · simp [hsame, Ne.symm hsame]

@[simp] theorem length_setLoop (l : LoopId) (f : Loop → Loop) :
    (u.setLoop l f).loops.length = u.loops.length :=
  List.length_modify ..

theorem loop_setLoop (l : LoopId) (f : Loop → Loop) (l' : LoopId) :
    (u.setLoop l f).loops[l']? =
      if l' = l then (u.loops[l']?).map f else u.loops[l']? := by
  unfold setLoop
  split
  next hsame => rw [hsame, List.getElem?_modify_eq]; rfl
  next hne => exact List.getElem?_modify_ne f u.loops (Ne.symm hne)

theorem lt_of_slotOf? {w : WatcherId} {l : LoopId} (hslot : u.slotOf? w = some l) :
    w < u.watchers.length := by
  obtain ⟨watcher, hwatcher, _⟩ := Option.bind_eq_some_iff.mp hslot
  exact (List.getElem?_eq_some_iff.mp hwatcher).1

theorem stop_of_slot {w : WatcherId} {l : LoopId} (hslot : u.slotOf? w = some l) :
    u.stop w = (u.setSlot w none).setLoop l fun loop => { loop with stopping := true } := by
  unfold slotOf? at hslot
  simp [stop, hslot]

theorem stop_of_empty {w : WatcherId} (hslot : u.slotOf? w = none) : u.stop w = u := by
  unfold slotOf? at hslot
  simp [stop, hslot]

theorem slotOf?_stop (w w' : WatcherId) :
    (u.stop w).slotOf? w' = if w' = w then none else u.slotOf? w' := by
  cases hslot : u.slotOf? w with
  | none =>
      rw [stop_of_empty hslot]
      split
      next hsame => rw [hsame, hslot]
      next => rfl
  | some l =>
      rw [stop_of_slot hslot]
      exact slotOf?_setSlot (lt_of_slotOf? hslot) none w'

/-- Only the loop in the slot is told to stop. -/
theorem loop_stop (w : WatcherId) (l : LoopId) :
    (u.stop w).loops[l]? =
      if u.slotOf? w = some l then (u.loops[l]?).map fun loop => { loop with stopping := true }
      else u.loops[l]? := by
  cases hslot : u.slotOf? w with
  | none => simp [stop_of_empty hslot]
  | some l' =>
      rw [stop_of_slot hslot, loop_setLoop]
      simp only [Option.some.injEq, eq_comm (a := l)]
      rfl

@[simp] theorem installed?_stop (w : WatcherId) : (u.stop w).installed? = u.installed? := by
  unfold stop
  split <;> rfl

@[simp] theorem installed?_release (w : WatcherId) :
    (u.release w).installed? = u.installed? := by
  unfold release
  split
  · rfl
  · exact installed?_stop w

theorem installed?_discard : u.discard.installed? = none := by
  unfold discard
  split
  next hnone => exact hnone
  next => exact installed?_release _

@[simp] theorem slotOf?_install (schedule : Schedule) (w : WatcherId) :
    (u.install schedule).slotOf? w = u.discard.slotOf? w := by
  unfold slotOf? install
  rw [List.getElem?_append]
  split
  · rfl
  next hlater =>
    rw [List.getElem?_eq_none (Nat.le_of_not_lt hlater)]
    cases w - u.discard.watchers.length <;> rfl

theorem start_cases (u : Upkeep) (w : WatcherId) :
    u.start w = u ∨
      ∃ watcher, u.watchers[w]? = some watcher ∧ ¬u.isRunning watcher ∧
        u.start w = { u.setSlot w (some u.loops.length) with
          loops := u.loops ++ [⟨watcher.schedule, false, .starting⟩] } := by
  unfold start
  split
  · exact .inl rfl
  next watcher hwatcher =>
    split
    · exact .inl rfl
    next hrunning => exact .inr ⟨watcher, hwatcher, hrunning, rfl⟩

/-! ## Loops that were started -/

/-- The step starts the loop for the watcher. -/
def Starts (t : Run.Transition Upkeep Event) (w : WatcherId) (l : LoopId) : Prop :=
  t.event = .start ∧ t.before.installed? = some w ∧ t.before.loops.length = l ∧
    l < t.after.loops.length

/-- The loop was started for the watcher. -/
def StartedBy (ts : List (Run.Transition Upkeep Event)) (w : WatcherId) (l : LoopId) : Prop :=
  ∃ t ∈ ts, Starts t w l

theorem startedBy_append {ts : List (Run.Transition Upkeep Event)}
    {t : Run.Transition Upkeep Event} {w : WatcherId} {l : LoopId} :
    StartedBy (ts ++ [t]) w l ↔ StartedBy ts w l ∨ Starts t w l := by
  simp [StartedBy, or_and_right, exists_or]

/-- `S` says which watcher started which loop. -/
structure Tended (S : WatcherId → LoopId → Prop) (u : Upkeep) : Prop where
  bound : ∀ {w l}, S w l → l < u.loops.length
  started : ∀ {l}, l < u.loops.length → ∃ w, S w l
  unique : ∀ {w w' l}, S w l → S w' l → w = w'
  slot : ∀ {w l}, u.slotOf? w = some l → S w l ∧ u.isSignalled l = false
  active : ∀ {w l}, S w l → u.IsActive l → u.slotOf? w = some l

variable {S : WatcherId → LoopId → Prop}

theorem tended_ofManager (m : Manager) : Tended (StartedBy []) (ofManager m) := by
  constructor
  case bound => rintro w l ⟨t, ht, _⟩; cases ht
  case started => intro l hl; cases hl
  case unique => rintro w w' l ⟨t, ht, _⟩; cases ht
  case slot => intro w l hslot; cases hslot
  case active => rintro w l ⟨t, ht, _⟩; cases ht

theorem Tended.ofSame {next : Upkeep} (hu : u.Tended S) (hwatchers : next.watchers = u.watchers)
    (hloops : next.loops = u.loops) : next.Tended S := by
  constructor
  case bound => rw [hloops]; exact hu.bound
  case started => rw [hloops]; exact hu.started
  case unique => exact hu.unique
  case slot => unfold slotOf? isSignalled; rw [hwatchers, hloops]; exact hu.slot
  case active => unfold slotOf? IsActive; rw [hwatchers, hloops]; exact hu.active

theorem Tended.stop (hu : u.Tended S) (w : WatcherId) : (u.stop w).Tended S := by
  have hlength : (u.stop w).loops.length = u.loops.length := by
    cases hslot : u.slotOf? w with
    | none => rw [stop_of_empty hslot]
    | some l => rw [stop_of_slot hslot, length_setLoop]; rfl
  constructor
  case bound => rw [hlength]; exact hu.bound
  case started => rw [hlength]; exact hu.started
  case unique => exact hu.unique
  case slot =>
    intro w' l hslot
    rw [slotOf?_stop] at hslot
    split at hslot
    next => cases hslot
    next hne =>
      obtain ⟨hstarted, hquiet⟩ := hu.slot hslot
      -- The loop that is told to stop was started by the other watcher.
      have hother : u.slotOf? w ≠ some l := fun h => hne (hu.unique hstarted (hu.slot h).1)
      exact ⟨hstarted, by rw [isSignalled, loop_stop, if_neg hother]; exact hquiet⟩
  case active =>
    rintro w' l hstarted ⟨loop, hloop, hover, hquiet⟩
    have hother : u.slotOf? w ≠ some l := by
      intro hslot
      rw [loop_stop, if_pos hslot] at hloop
      obtain ⟨before, _, rfl⟩ := Option.map_eq_some_iff.mp hloop
      cases hquiet
    rw [loop_stop, if_neg hother] at hloop
    have hslot := hu.active hstarted ⟨loop, hloop, hover, hquiet⟩
    rw [slotOf?_stop, if_neg]
    · exact hslot
    · rintro rfl
      exact hother hslot

theorem Tended.release (hu : u.Tended S) (w : WatcherId) : (u.release w).Tended S := by
  unfold Upkeep.release
  split
  · exact hu
  · exact hu.stop w

theorem Tended.setTick (hu : u.Tended S) (t : TickId) (tick : Tick) :
    (u.setTick t tick).Tended S := by
  have hset : Tended S { u with ticks := u.ticks.set t tick } := hu.ofSame rfl rfl
  unfold Upkeep.setTick
  cases tick.watcher? with
  | none => exact hset
  | some w => exact hset.release w

theorem Tended.discard (hu : u.Tended S) : u.discard.Tended S := by
  unfold Upkeep.discard
  split
  · exact hu
  next w _ =>
    have hfree : Tended S { u with installed? := none } := hu.ofSame rfl rfl
    exact hfree.release w

theorem Tended.install (hu : u.Tended S) (schedule : Schedule) :
    (u.install schedule).Tended S := by
  have hold := hu.discard
  constructor
  case bound => exact hold.bound
  case started => exact hold.started
  case unique => exact hold.unique
  case slot => intro w l; rw [slotOf?_install]; exact hold.slot
  case active => intro w l; rw [slotOf?_install]; exact hold.active

/-- A loop that is not over goes on, or ends. -/
theorem Tended.setPhase (hu : u.Tended S) {l : LoopId} {loop : Loop}
    (hloop : u.loops[l]? = some loop) (hover : loop.isOver = false) (phase : LoopPhase) :
    (u.setLoop l fun loop' => { loop' with phase := phase }).Tended S := by
  constructor
  case bound => rw [length_setLoop]; exact hu.bound
  case started => rw [length_setLoop]; exact hu.started
  case unique => exact hu.unique
  case slot =>
    intro w l' hslot
    obtain ⟨hstarted, hquiet⟩ := hu.slot hslot
    refine ⟨hstarted, ?_⟩
    rw [← hquiet, isSignalled, loop_setLoop, isSignalled]
    split <;> cases u.loops[l']? <;> rfl
  case active =>
    rintro w l' hstarted ⟨after, hafter, hbusy, hquiet⟩
    apply hu.active hstarted
    rw [loop_setLoop] at hafter
    split at hafter
    next hsame =>
      subst hsame
      rw [hloop] at hafter
      cases hafter
      exact ⟨loop, hloop, hover, hquiet⟩
    next => exact ⟨after, hafter, hbusy, hquiet⟩

/-- A step that starts no loop leaves everything as it is said. -/
theorem Tended.quiet {ts : List (Run.Transition Upkeep Event)} {t : Run.Transition Upkeep Event}
    (hu : u.Tended (StartedBy ts)) (hquiet : ∀ w l, ¬Starts t w l) :
    u.Tended (StartedBy (ts ++ [t])) := by
  have hsame : StartedBy (ts ++ [t]) = StartedBy ts := by
    funext w l
    simp [startedBy_append, hquiet]
  rw [hsame]
  exact hu

theorem Tended.start {ts : List (Run.Transition Upkeep Event)} {w : WatcherId}
    (hu : u.Tended (StartedBy ts)) (hinstalled : u.installed? = some w) :
    (u.start w).Tended (StartedBy (ts ++ [⟨u, .start, u.start w⟩])) := by
  rcases start_cases u w with hsame | ⟨watcher, hwatcher, hrunning, hstart⟩
  · rw [hsame]
    apply hu.quiet
    rintro w' l ⟨_, _, rfl, hlater⟩
    exact Nat.lt_irrefl _ hlater
  have hlength : (u.start w).loops.length = u.loops.length + 1 := by
    rw [hstart, List.length_append, List.length_singleton]
  have hslot : ∀ w', (u.start w).slotOf? w' =
      if w' = w then some u.loops.length else u.slotOf? w' := by
    intro w'
    rw [hstart]
    exact slotOf?_setSlot (List.getElem?_eq_some_iff.mp hwatcher).1 _ w'
  have hold : ∀ l < u.loops.length, (u.start w).loops[l]? = u.loops[l]? := by
    intro l hl
    rw [hstart]
    exact List.getElem?_append_left hl
  have hstarts : ∀ w' l, StartedBy (ts ++ [⟨u, .start, u.start w⟩]) w' l ↔
      StartedBy ts w' l ∨ w' = w ∧ l = u.loops.length := by
    intro w' l
    rw [startedBy_append]
    simp only [Starts, hinstalled, hlength, Option.some.injEq, true_and]
    grind
  constructor
  case bound =>
    intro w' l hby
    rw [hlength]
    rcases (hstarts w' l).mp hby with hearlier | ⟨_, rfl⟩
    · exact Nat.lt_succ_of_lt (hu.bound hearlier)
    · exact Nat.lt_succ_self _
  case started =>
    intro l hl
    rw [hlength] at hl
    rcases Nat.lt_succ_iff_lt_or_eq.mp hl with hearlier | hnew
    · obtain ⟨w', hby⟩ := hu.started hearlier
      exact ⟨w', (hstarts w' l).mpr (.inl hby)⟩
    · exact ⟨w, (hstarts w l).mpr (.inr ⟨rfl, hnew⟩)⟩
  case unique =>
    intro w' w'' l hby hby'
    rw [hstarts] at hby hby'
    rcases hby with hearlier | ⟨hself, hnew⟩ <;> rcases hby' with hearlier' | ⟨hself', hnew'⟩
    · exact hu.unique hearlier hearlier'
    · exact absurd (hu.bound hearlier) (hnew' ▸ Nat.lt_irrefl _)
    · exact absurd (hu.bound hearlier') (hnew ▸ Nat.lt_irrefl _)
    · exact hself.trans hself'.symm
  case slot =>
    intro w' l hheld
    rw [hslot] at hheld
    split at hheld
    next hself =>
      obtain rfl := Option.some.inj hheld
      refine ⟨(hstarts w' _).mpr (.inr ⟨hself, rfl⟩), ?_⟩
      simp [isSignalled, hstart]
    next =>
      obtain ⟨hby, hquiet⟩ := hu.slot hheld
      refine ⟨(hstarts w' l).mpr (.inl hby), ?_⟩
      rw [isSignalled, hold l (hu.bound hby)]
      exact hquiet
  case active =>
    rintro w' l hby ⟨loop, hloop, hover, hquiet⟩
    rw [hslot]
    rcases (hstarts w' l).mp hby with hearlier | ⟨rfl, rfl⟩
    case inl =>
      rw [hold l (hu.bound hearlier)] at hloop
      have hheld := hu.active hearlier ⟨loop, hloop, hover, hquiet⟩
      -- The watcher that starts a loop has none that is not over.
      have hne : w' ≠ w := by
        rintro rfl
        exact hrunning ((isRunning_iff hwatcher).mpr ⟨l, loop, hheld, hloop, hover⟩)
      rw [if_neg hne]
      exact hheld
    case inr => rw [if_pos rfl]

theorem Tended.step {ts : List (Run.Transition Upkeep Event)} (hu : u.Tended (StartedBy ts))
    {e : Event} {next : Upkeep} (hstep : u.step e = some next) :
    next.Tended (StartedBy (ts ++ [⟨u, e, next⟩])) := by
  have hmove := move_of_step hstep
  by_cases hstart : e = .start
  · subst hstart
    cases hmove with
    | start hinstalled => exact hu.start hinstalled
  apply Tended.quiet
  case hquiet =>
    rintro w l ⟨hevent, _⟩
    exact hstart hevent
  cases hmove with
  | start => exact absurd rfl hstart
  | manager => exact hu.ofSame rfl rfl
  | install schedule => exact hu.install schedule
  | discard => exact hu.discard
  | stop => exact hu.stop _
  | enter hloop hphase => exact hu.setPhase hloop (by simp [Loop.isOver, hphase]) _
  | ring hloop hphase =>
      have hrung := hu.setPhase hloop (by simp [Loop.isOver, hphase])
      exact (hrung _).ofSame rfl rfl
  | settle hloop hphase => exact hu.setPhase hloop (by simp [Loop.isOver, hphase]) _
  | quit hloop hphase => exact hu.setPhase hloop (by simp [Loop.isOver, hphase]) _
  | tick => exact hu.ofSame rfl rfl
  | begin | breakDown | dropTick => exact hu.setTick _ _
  | @paused _ _ key _ _ _ _ result =>
      have hheard : Tended (StartedBy ts) { u with manager := afterPause u.manager key result } :=
        hu.ofSame rfl rfl
      exact hheard.setTick _ _

/-! ## Watchers that nobody has hold of -/

theorem isHeld_iff {w : WatcherId} :
    u.isHeld w ↔ u.installed? = some w ∨
      ∃ tick ∈ u.ticks, tick.watcher? = some w ∧ tick.isOver = false := by
  simp [isHeld]

/-- The slots of watchers that nobody has hold of are empty. -/
def Freed (u : Upkeep) : Prop :=
  ∀ w, ¬u.isHeld w → u.slotOf? w = none

theorem freed_ofManager (m : Manager) : (ofManager m).Freed := by
  intro w _
  rfl

/-- Whoever had hold of a watcher still has, and no slot was filled. -/
theorem Freed.ofHeld {next : Upkeep} (hu : u.Freed) (hheld : ∀ w, u.isHeld w → next.isHeld w)
    (hslot : ∀ w, u.slotOf? w = none → next.slotOf? w = none) : next.Freed := by
  intro w hfree
  exact hslot w (hu w fun h => hfree (hheld w h))

theorem Freed.ofSame {next : Upkeep} (hu : u.Freed) (hinstalled : next.installed? = u.installed?)
    (hwatchers : next.watchers = u.watchers) (hticks : next.ticks = u.ticks) : next.Freed := by
  apply hu.ofHeld
  · intro w hheld
    rw [isHeld_iff, hinstalled, hticks, ← isHeld_iff]
    exact hheld
  · intro w hslot
    rw [slotOf?, hwatchers]
    exact hslot

theorem isHeld_stop (w w' : WatcherId) : (u.stop w).isHeld w' = u.isHeld w' := by
  unfold isHeld
  rw [installed?_stop, (sameWork_stop u w).ticks_eq]

theorem freed_release {w : WatcherId}
    (hothers : ∀ w', w' ≠ w → ¬u.isHeld w' → u.slotOf? w' = none) : (u.release w).Freed := by
  intro w' hfree
  unfold release at hfree ⊢
  split at hfree
  next hheld =>
    have hne : w' ≠ w := by
      rintro rfl
      exact hfree hheld
    rw [if_pos hheld]
    exact hothers w' hne hfree
  next hheld =>
    rw [isHeld_stop] at hfree
    rw [if_neg hheld, slotOf?_stop]
    split
    next => rfl
    next hne => exact hothers w' hne hfree

theorem Freed.stop (hu : u.Freed) (w : WatcherId) : (u.stop w).Freed := by
  apply hu.ofHeld
  · intro w' hheld
    rw [isHeld_stop]
    exact hheld
  · intro w' hslot
    rw [slotOf?_stop, hslot]
    exact ite_self none

theorem Freed.discard (hu : u.Freed) : u.discard.Freed := by
  unfold Upkeep.discard
  split
  · exact hu
  next w hinstalled =>
    apply freed_release
    intro w' hne hfree
    apply hu
    rw [isHeld_iff] at hfree ⊢
    rintro (hself | hticking)
    · rw [hinstalled, Option.some.injEq] at hself
      exact hne hself.symm
    · exact hfree (.inr hticking)

theorem Freed.install (hu : u.Freed) (schedule : Schedule) : (u.install schedule).Freed := by
  apply hu.discard.ofHeld
  · intro w hheld
    rw [isHeld_iff, installed?_discard] at hheld
    rw [isHeld_iff]
    rcases hheld with hself | hticking
    · cases hself
    · exact .inr hticking
  · intro w hslot
    rw [slotOf?_install]
    exact hslot

theorem Freed.start {w : WatcherId} (hu : u.Freed) (hinstalled : u.installed? = some w) :
    (u.start w).Freed := by
  rcases start_cases u w with hsame | ⟨watcher, hwatcher, _, hstart⟩
  · rw [hsame]
    exact hu
  intro w' hfree
  rw [hstart] at hfree ⊢
  have hne : w' ≠ w := by
    rintro rfl
    exact hfree (isHeld_iff.mpr (.inl hinstalled))
  have hslot := slotOf?_setSlot (List.getElem?_eq_some_iff.mp hwatcher).1 (some u.loops.length) w'
  rw [if_neg hne] at hslot
  exact hslot.trans (hu w' hfree)

theorem Freed.schedule (hu : u.Freed) (tick : Tick) : (u.schedule tick).Freed := by
  refine hu.ofHeld ?_ fun _ hslot => hslot
  intro w hheld
  rw [isHeld_iff] at hheld ⊢
  rcases hheld with hself | ⟨old, hold, hbusy⟩
  · exact .inl hself
  · exact .inr ⟨old, List.mem_append_left _ hold, hbusy⟩

/-- A tick goes on, or ends and lets go of its watcher. -/
theorem Freed.setTick (hu : u.Freed) {t : TickId} {old tick : Tick}
    (hold : u.ticks[t]? = some old) (hsource : tick.source = old.source) :
    (u.setTick t tick).Freed := by
  have hothers : ∀ w, tick.watcher? ≠ some w →
      ¬isHeld { u with ticks := u.ticks.set t tick } w → u.slotOf? w = none := by
    intro w hne hfree
    apply hu
    rw [isHeld_iff] at hfree ⊢
    rintro (hself | ⟨other, hother, hwatcher, hbusy⟩)
    · exact hfree (.inl hself)
    · refine hfree (.inr ⟨other, ?_, hwatcher, hbusy⟩)
      obtain ⟨i, hi⟩ := List.getElem?_of_mem hother
      have hapart : t ≠ i := by
        rintro rfl
        rw [hold, Option.some.injEq] at hi
        rw [Tick.watcher?, hsource, hi] at hne
        exact hne hwatcher
      apply List.mem_of_getElem? (i := i)
      rw [List.getElem?_set_ne hapart]
      exact hi
  unfold Upkeep.setTick
  cases hwatcher : tick.watcher? with
  | none =>
      intro w hfree
      exact hothers w (by simp [hwatcher]) hfree
  | some w =>
      apply freed_release
      intro w' hne hfree
      exact hothers w' (by simp [hwatcher, Ne.symm hne]) hfree

theorem Freed.step (hu : u.Freed) {e : Event} {next : Upkeep} (hstep : u.step e = some next) :
    next.Freed := by
  cases move_of_step hstep with
  | manager => exact hu.ofSame rfl rfl rfl
  | install schedule => exact hu.install schedule
  | discard => exact hu.discard
  | start hinstalled => exact hu.start hinstalled
  | stop => exact hu.stop _
  | enter | settle | quit => exact hu.ofSame rfl rfl rfl
  | @ring l loop due hloop =>
      apply Freed.schedule
      exact hu.ofSame rfl rfl rfl
  | tick => exact hu.schedule _
  | begin htick => exact hu.setTick htick (Tick.source_proceed ..)
  | @paused t tick key handle rest htick hphase result =>
      have hheard : Freed { u with manager := afterPause u.manager key result } :=
        hu.ofSame rfl rfl rfl
      apply hheard.setTick htick
      rw [Tick.source_proceed, Tick.source_count]
  | breakDown htick | dropTick htick => exact hu.setTick htick rfl

end WakeRouter.Upkeep
