import WakeRouter.Proofs.Watcher.Slots

/-!
# What one event does to a loop

Loops never go away.  A loop is moved on by events of its own only; all that others do to it
is to tell it to stop.
-/

namespace WakeRouter

/-- Where a loop gets to whose ticker is set up at that instant. -/
def Loop.entry (loop : Loop) (now : Instant) : LoopPhase :=
  match Ticker.first? now loop.schedule.interval with
  | some due => .waiting due
  | none => .broken

namespace Upkeep

variable {u next : Upkeep}

/-- No loop is moved on; some may be told to stop. -/
def LoopsKept (u next : Upkeep) : Prop :=
  ∀ l : LoopId, next.loops[l]? = u.loops[l]? ∨
    next.loops[l]? = (u.loops[l]?).map fun loop => { loop with stopping := true }

theorem loopsKept_of_same (hloops : next.loops = u.loops) : u.LoopsKept next := by
  intro l
  rw [hloops]
  exact .inl rfl

theorem loopsKept_stop (u : Upkeep) (w : WatcherId) : u.LoopsKept (u.stop w) := by
  intro l
  rw [loop_stop]
  split
  · exact .inr rfl
  · exact .inl rfl

theorem loopsKept_release (u : Upkeep) (w : WatcherId) : u.LoopsKept (u.release w) := by
  unfold release
  split
  · exact loopsKept_of_same rfl
  · exact loopsKept_stop u w

theorem loopsKept_setTick (u : Upkeep) (t : TickId) (tick : Tick) :
    u.LoopsKept (u.setTick t tick) := by
  unfold setTick
  cases tick.watcher? with
  | none => exact loopsKept_of_same rfl
  | some w => exact loopsKept_release { u with ticks := u.ticks.set t tick } w

theorem loopsKept_discard (u : Upkeep) : u.LoopsKept u.discard := by
  unfold discard
  split
  · exact loopsKept_of_same rfl
  next w _ => exact loopsKept_release { u with installed? := none } w

/-- What a step can do to a loop. -/
inductive LoopChange (u : Upkeep) (l : LoopId) : Event → Option Loop → Option Loop → Prop
  | absent {e : Event} (hother : e ≠ .enter l) : LoopChange u l e none none
  | started {e : Event} {loop : Loop} (hother : e ≠ .enter l) (hphase : loop.phase = .starting) :
      LoopChange u l e none (some loop)
  | kept {e : Event} {loop : Loop} (hother : e ≠ .enter l) :
      LoopChange u l e (some loop) (some loop)
  | signalled {e : Event} {loop : Loop} (hother : e ≠ .enter l) :
      LoopChange u l e (some loop) (some { loop with stopping := true })
  | entered {loop : Loop} (hphase : loop.phase = .starting) :
      LoopChange u l (.enter l) (some loop)
        (some { loop with phase := loop.entry u.manager.now })
  | rung {loop : Loop} {due : Instant} (hphase : loop.phase = .waiting due)
      (hdue : due ≤ u.manager.now) :
      LoopChange u l (.ring l) (some loop)
        (some { loop with
          phase := .ticking u.ticks.length
            (Ticker.next u.manager.now due loop.schedule.interval) })
  | settled {loop : Loop} {t : TickId} {due : Instant} (hphase : loop.phase = .ticking t due)
      (hover : (u.ticks[t]?).all Tick.isOver) :
      LoopChange u l (.settle l) (some loop) (some { loop with phase := .waiting due })
  | quit {loop : Loop} {due : Instant} (hphase : loop.phase = .waiting due)
      (hstopping : loop.stopping) :
      LoopChange u l (.quit l) (some loop) (some { loop with phase := .finished })

theorem LoopsKept.loopChange (hkept : u.LoopsKept next) {e : Event} {l : LoopId}
    (hother : e ≠ .enter l) : u.LoopChange l e u.loops[l]? next.loops[l]? := by
  rcases hkept l with hsame | hsignalled
  · rw [hsame]
    cases u.loops[l]? with
    | none => exact .absent hother
    | some loop => exact .kept hother
  · rw [hsignalled]
    cases u.loops[l]? with
    | none => exact .absent hother
    | some loop => exact .signalled hother

theorem loopChange_start (u : Upkeep) (w : WatcherId) (l : LoopId) :
    u.LoopChange l .start u.loops[l]? (u.start w).loops[l]? := by
  rcases start_cases u w with hsame | ⟨watcher, _, _, hstart⟩
  · rw [hsame]
    exact (loopsKept_of_same rfl).loopChange (by simp)
  rw [hstart]
  rcases Nat.lt_trichotomy l u.loops.length with hold | rfl | hlater
  · rw [List.getElem?_append_left hold]
    exact (loopsKept_of_same rfl).loopChange (by simp)
  · rw [List.getElem?_concat_length, List.getElem?_eq_none (Nat.le_refl _)]
    exact .started (by simp) rfl
  · have hnone : (u.loops ++ [⟨watcher.schedule, false, .starting⟩])[l]? = none :=
      List.getElem?_eq_none (by simp; omega)
    rw [hnone, List.getElem?_eq_none (Nat.le_of_lt hlater)]
    exact .absent (by simp)

/-- An event of one loop leaves the others as they are. -/
theorem loopChange_setLoop {e : Event} {l : LoopId} {loop : Loop} {f : Loop → Loop}
    (hloop : u.loops[l]? = some loop) (hown : u.LoopChange l e (some loop) (some (f loop)))
    (hothers : ∀ l', l' ≠ l → e ≠ .enter l') (l' : LoopId) :
    u.LoopChange l' e u.loops[l']? (u.setLoop l f).loops[l']? := by
  rw [loop_setLoop]
  split
  next hsame =>
    subst hsame
    rw [hloop]
    exact hown
  next hne => exact (loopsKept_of_same rfl).loopChange (hothers l' hne)

theorem loopChange_of_step {e : Event} (hstep : u.step e = some next) (l : LoopId) :
    u.LoopChange l e u.loops[l]? next.loops[l]? := by
  cases move_of_step hstep with
  | manager | tick => exact (loopsKept_of_same rfl).loopChange (by simp)
  | install schedule => exact LoopsKept.loopChange (loopsKept_discard u) (by simp)
  | discard => exact (loopsKept_discard u).loopChange (by simp)
  | start => exact loopChange_start u _ l
  | stop => exact (loopsKept_stop u _).loopChange (by simp)
  | begin | breakDown | dropTick => exact (loopsKept_setTick u _ _).loopChange (by simp)
  | @paused t tick key _ rest _ _ result =>
      have hkept : u.LoopsKept (({ u with manager := afterPause u.manager key result }).proceed t
          (tick.count result) rest) :=
        loopsKept_setTick { u with manager := afterPause u.manager key result } _ _
      exact hkept.loopChange (by simp)
  | enter hloop hphase =>
      exact loopChange_setLoop hloop (.entered hphase) (fun l' hne => by simp [Ne.symm hne]) l
  | ring hloop hphase hdue => exact loopChange_setLoop hloop (.rung hphase hdue) (by simp) l
  | settle hloop hphase hover =>
      exact loopChange_setLoop hloop (.settled hphase hover) (by simp) l
  | quit hloop hphase hstopping =>
      exact loopChange_setLoop hloop (.quit hphase hstopping) (by simp) l

end Upkeep

end WakeRouter
