import WakeRouter.Proofs.Manager.Patience

/-!
# Waiting callers are independent

Take a run, and let one caller that has joined a wake wait for another time, be cancelled at
another moment or go away at another, or not at all.  The run goes on as it did for
everybody else.
-/

namespace WakeRouter.Manager

variable {m next : Manager} {c : CallerId}

/-! ## Other choices of the caller -/

/-- The events of a run, less what the caller chooses. -/
def others (c : CallerId) (es : List Event) : List Event :=
  (es.filter fun e => !e.isPatience c).map (Event.blur c)

/-- The events, less the moves of the caller that come too late because it has been
answered or has gone away. -/
def dropLate (c : CallerId) (m : Manager) : List Event → List Event
  | [] => []
  | e :: es =>
    match m.step e with
    | some next => e :: dropLate c next es
    | none => if e.isPatience c then dropLate c m es else e :: es

/-- The records after each step of a run that is not a matter of the caller's patience. -/
def recordsAlong (c : CallerId) (m : Manager) (es : List Event) : List Records :=
  ((m.trail es).filter fun t => !t.event.isPatience c).map fun t => t.after.records

theorem others_cons_of_patience {e : Event} (hpatience : e.isPatience c = true)
    (es : List Event) : others c (e :: es) = others c es := by
  simp [others, hpatience]

theorem others_cons {e : Event} (hother : e.isPatience c = false) (es : List Event) :
    others c (e :: es) = e.blur c :: others c es := by
  simp [others, hother]

theorem recordsAlong_append {es : List Event} (hrun : m.run es = some next)
    (later : List Event) :
    recordsAlong c m (es ++ later) = recordsAlong c m es ++ recordsAlong c next later := by
  simp [recordsAlong, Run.trail_append hrun]

theorem calls_append {es : List Event} (hrun : m.run es = some next) (later : List Event) :
    m.calls (es ++ later) = m.calls es ++ next.calls later := by
  simp [calls, Run.trail_append hrun]

theorem dropLate_append {es : List Event} (hrun : m.run (dropLate c m es) = some next)
    (later : List Event) :
    dropLate c m (es ++ later) = dropLate c m es ++ dropLate c next later := by
  induction es generalizing m with
  | nil =>
      obtain rfl := Option.some.inj hrun
      rfl
  | cons e es ih =>
      simp only [List.cons_append, dropLate] at hrun ⊢
      cases hstep : m.step e with
      | some middle =>
          simp only [hstep, Run.after?_cons hstep] at hrun ⊢
          rw [ih hrun, List.cons_append]
      | none =>
          simp only [hstep] at hrun ⊢
          split at hrun
          next hpatience =>
            rw [if_pos hpatience, if_pos hpatience]
            exact ih hrun
          next => simp [Run.after?, hstep] at hrun

/-! ## Runs that differ in one caller -/

/-- Two runs that lead through the same records and make the same calls, and in the end
differ in the one caller at most. -/
structure Mirrors (c : CallerId) (m : Manager) (es : List Event) (n m' : Manager)
    (es' : List Event) (n' : Manager) : Prop where
  run : m.run es = some n
  run' : m'.run es' = some n'
  records : recordsAlong c m' es' = recordsAlong c m es
  calls : m'.calls es' = m.calls es
  same : SameBut c n n'

variable {m' n n' k k' : Manager} {es es' later later' : List Event}

theorem Mirrors.nil (hsame : SameBut c m m') : Mirrors c m [] m m' [] m' :=
  ⟨rfl, rfl, rfl, rfl, hsame⟩

theorem Mirrors.symm (h : Mirrors c m es n m' es' n') : Mirrors c m' es' n' m es n :=
  ⟨h.run', h.run, h.records.symm, h.calls.symm, h.same.symm⟩

theorem Mirrors.append (h : Mirrors c m es n m' es' n')
    (hlater : Mirrors c n later k n' later' k') :
    Mirrors c m (es ++ later) k m' (es' ++ later') k' := by
  constructor
  case run => exact (Run.after?_append_of_run h.run later).trans hlater.run
  case run' => exact (Run.after?_append_of_run h.run' later').trans hlater.run'
  case records =>
    rw [recordsAlong_append h.run', recordsAlong_append h.run, h.records, hlater.records]
  case calls => rw [calls_append h.run', calls_append h.run, h.calls, hlater.calls]
  case same => exact hlater.same

theorem SameBut.call?_eq (h : SameBut c m m') {e e' : Event} (hblur : e'.blur c = e.blur c) :
    m'.call? e' = m.call? e := by
  rw [h.core]
  rcases Event.eq_or_ensure hblur with
    rfl | ⟨key, timeout, cancelled, timeout', cancelled', rfl, rfl⟩
  · cases e' <;> rfl
  · rfl

theorem call?_of_patience {e : Event} (hpatience : e.isPatience c = true) :
    m.call? e = none := by
  cases e with
  | poll | cancel | leave => rfl
  | _ => cases hpatience

theorem Mirrors.step (h : SameBut c m m') {e e' : Event} (hblur : e'.blur c = e.blur c)
    (hother : e.isPatience c = false) (hstep : m.step e = some next) :
    ∃ next', Mirrors c m [e] next m' [e'] next' := by
  obtain ⟨next', hstep', hsame⟩ := h.step hblur hother hstep
  have hother' : e'.isPatience c = false := by
    rw [← Event.isPatience_blur, hblur, Event.isPatience_blur, hother]
  have hcall := h.call?_eq hblur
  have hrecords : next'.records = next.records := by rw [hsame.core]
  refine ⟨next', Run.after?_cons hstep [], Run.after?_cons hstep' [], ?_, ?_, hsame⟩
  · simp [recordsAlong, Run.trail, hstep, hstep', hother, hother', hrecords]
  · simp [Manager.calls, Run.trail, hstep, hstep', List.filterMap_cons, hcall]

theorem Mirrors.patience (h : SameBut c m m') {e : Event} (hpatience : e.isPatience c = true)
    (hlate : e ≠ .leave c ∨ m.HasLooked c) (hstep : m.step e = some next) :
    Mirrors c m [e] next m' [] m' := by
  have hsame := sameBut_of_patience hpatience hlate hstep
  refine ⟨Run.after?_cons hstep [], rfl, ?_, ?_, hsame.symm.trans h⟩
  · simp [recordsAlong, Run.trail, hstep, hpatience]
  · simp [Manager.calls, Run.trail, hstep, call?_of_patience hpatience]

/-- A run goes on when the caller never does anything about its patience. -/
theorem mirrors_others (h : SameBut c m m') (hlate : .leave c ∉ es ∨ m.HasLooked c)
    (hrun : m.run es = some n) : ∃ n', Mirrors c m es n m' (others c es) n' := by
  induction es generalizing m m' with
  | nil =>
      obtain rfl := Option.some.inj hrun
      exact ⟨m', .nil h⟩
  | cons e es ih =>
      obtain ⟨next, hstep, hrest⟩ := Option.bind_eq_some_iff.mp hrun
      have hlate' : .leave c ∉ es ∨ next.HasLooked c :=
        hlate.imp (fun h hmem => h (List.mem_cons_of_mem _ hmem)) fun h => h.step hstep
      cases hpatience : e.isPatience c with
      | true =>
          have hfirst := Mirrors.patience h hpatience
            (hlate.imp_left fun h he => h (he ▸ List.mem_cons_self)) hstep
          obtain ⟨n', hothers⟩ := ih hfirst.same hlate' hrest
          rw [others_cons_of_patience hpatience]
          exact ⟨n', hfirst.append hothers⟩
      | false =>
          obtain ⟨next', hfirst⟩ := Mirrors.step h (Event.blur_blur c e) hpatience hstep
          obtain ⟨n', hothers⟩ := ih hfirst.same hlate' hrest
          rw [others_cons hpatience]
          exact ⟨n', hfirst.append hothers⟩

/-- A run in which the caller does nothing about its patience goes on with any choice of
the caller. -/
theorem mirrors_dropLate (h : SameBut c m m') (hlate : .leave c ∉ es ∨ m.HasLooked c)
    (hrun : m'.run (others c es) = some n') :
    ∃ n, Mirrors c m (dropLate c m es) n m' (others c es) n' := by
  induction es generalizing m m' with
  | nil =>
      obtain rfl := Option.some.inj hrun
      exact ⟨m, .nil h⟩
  | cons e es ih =>
      have hlater : .leave c ∉ es ∨ m.HasLooked c :=
        hlate.imp_left fun h hmem => h (List.mem_cons_of_mem _ hmem)
      cases hpatience : e.isPatience c with
      | true =>
          rw [others_cons_of_patience hpatience] at hrun ⊢
          cases hstep : m.step e with
          | none =>
              simp only [dropLate, hstep, hpatience, if_true]
              exact ih h hlater hrun
          | some next =>
              have hfirst := Mirrors.patience h hpatience
                (hlate.imp_left fun h he => h (he ▸ List.mem_cons_self)) hstep
              obtain ⟨n, hothers⟩ := ih hfirst.same (hlater.imp_right fun h => h.step hstep) hrun
              simp only [dropLate, hstep]
              exact ⟨n, hfirst.append hothers⟩
      | false =>
          rw [others_cons hpatience] at hrun ⊢
          obtain ⟨next', hstep', hrest⟩ := Option.bind_eq_some_iff.mp hrun
          obtain ⟨next, hfirst⟩ := Mirrors.step h.symm (Event.blur_blur c e).symm
            (by rw [Event.isPatience_blur, hpatience]) hstep'
          have hstep : m.step e = some next := by simpa [Run.after?] using hfirst.run'
          obtain ⟨n, hothers⟩ :=
            ih hfirst.same.symm (hlater.imp_right fun h => h.step hstep) hrest
          simp only [dropLate, hstep]
          exact ⟨n, hfirst.symm.append hothers⟩

/-! ## The law -/

theorem records_eq_of_patience {e : Event} (hpatience : e.isPatience c = true)
    (hstep : m.step e = some next) : next.records = m.records := by
  cases move_of_step hstep with
  | hear | wait | cancel | leave => rfl
  | _ => cases hpatience

theorem leave_not_mem {deadline : Duration} {caller : Caller} {w : Wait}
    (hrun : (start deadline).run es = some m) (hcaller : m.callers.find? c = some caller)
    (hwaits : caller.phase = .waiting w) : .leave c ∉ es := by
  intro hmem
  obtain ⟨before, after, rfl⟩ := List.append_of_mem hmem
  simp only [Run.after?_append, Run.after?, Option.bind_eq_some_iff] at hrun
  obtain ⟨middle, _, next, hstep, hafter⟩ := hrun
  cases move_of_step hstep with
  | @leave _ old hold _ =>
      have hleft :
          (middle.setPhase c .left).callers.find? c = some { old with phase := .left } := by
        rw [find?_callers_setPhase, if_pos rfl, hold, Option.map_some]
      have hstill := settled_of_run hafter hleft rfl
      rw [hcaller, Option.some.injEq] at hstill
      subst caller
      cases hwaits

/-- Take a run and a caller that has begun or joined a wake.  Choose other terms for the
caller to come on, other moments for it to be cancelled and to look whether its wait is over,
and another moment after it has joined for it to go away, and leave all else as it is.  That
is a run as well, with the same records at every point, none of which is of the caller's
making, with the same calls, and with the same result for every other caller. -/
theorem waiter_independence {deadline : Duration} {caller : Caller} {w : Wait}
    {es' later' : List Event} (hrun : (start deadline).run es = some m)
    (hcaller : m.callers.find? c = some caller) (hwaits : caller.phase = .waiting w)
    (hlater : m.run later = some n) (hsame : others c es' = others c es)
    (hstays : .leave c ∉ es') (hsameLater : others c later' = others c later) :
    ∃ n', (start deadline).run (dropLate c (start deadline) (es' ++ later')) = some n' ∧
      recordsAlong c (start deadline) (dropLate c (start deadline) (es' ++ later')) =
        recordsAlong c (start deadline) (es ++ later) ∧
      (∀ t ∈ (start deadline).trail (dropLate c (start deadline) (es' ++ later')),
        t.event.isPatience c → t.after.records = t.before.records) ∧
      (start deadline).calls (dropLate c (start deadline) (es' ++ later')) =
        (start deadline).calls (es ++ later) ∧
      n'.records = n.records ∧ ∀ c', c' ≠ c → n'.callers.find? c' = n.callers.find? c' := by
  obtain ⟨k, hbase⟩ := mirrors_others (.refl c (start deadline))
    (.inl (leave_not_mem hrun hcaller hwaits)) hrun
  have hlooked : m.HasLooked c := ⟨caller, hcaller, by simp [Caller.IsPast, hwaits]⟩
  obtain ⟨l, hbaseLater⟩ := mirrors_others hbase.same (.inr hlooked) hlater
  obtain ⟨m', hchoice⟩ := mirrors_dropLate (.refl c (start deadline)) (.inl hstays)
    (hsame ▸ hbase.run')
  have hlooked' : m'.HasLooked c := hchoice.same.symm.hasLooked (hbase.same.hasLooked hlooked)
  obtain ⟨n', hchoiceLater⟩ := mirrors_dropLate hchoice.same (.inr hlooked')
    (hsameLater ▸ hbaseLater.run')
  -- Both runs mirror the one in which the caller does nothing about its patience.
  have hall := hbase.append hbaseLater
  have hchoices := hchoice.append hchoiceLater
  rw [hsame, hsameLater] at hchoices
  have hends : SameBut c n n' := hall.same.trans hchoices.same.symm
  rw [dropLate_append hchoice.run]
  refine ⟨n', hchoices.run, hchoices.records.symm.trans hall.records, ?_,
    hchoices.calls.symm.trans hall.calls, ?_, hends.callers.others⟩
  · intro t ht hpatience
    exact records_eq_of_patience hpatience (Run.step_of_mem_trail ht)
  · rw [hends.core]

/-- The first caller begins a wake on the given terms, and the second joins it. -/
def beginAndJoin (timeout : Duration) : List Event :=
  [.ensure 1 "alpha" timeout false,
    .described 1 (.ok [⟨"vm-1", "10.0.0.5", "paused", ["alpha"]⟩]), .engage 1,
    .ensure 2 "alpha" (.ofSeconds 5) false, .engage 2]

def wakeEnds : List Event :=
  [.resume 1, .resumed 1 .done, .deliver 1, .poll 2]

theorem waiter_independence_beginner :
    ∃ n n', (start defaultResumeDeadline).run
        (beginAndJoin (.ofSeconds 5) ++ (wakeEnds ++ [.poll 1])) = some n ∧
      (start defaultResumeDeadline).run (dropLate 1 (start defaultResumeDeadline)
        (beginAndJoin .zero ++ (.poll 1 :: .leave 1 :: wakeEnds))) = some n' ∧
      (n.callers.find? 1).bind Caller.answer? ≠ (n'.callers.find? 1).bind Caller.answer? ∧
      n'.records = n.records ∧ n'.callers.find? 2 = n.callers.find? 2 := by
  obtain ⟨m, caller, w, n, hrun, hcaller, hwaits, hlater, hanswer⟩ :
      ∃ m caller w n, (start defaultResumeDeadline).run (beginAndJoin (.ofSeconds 5)) = some m ∧
        m.callers.find? 1 = some caller ∧ caller.phase = .waiting w ∧
        m.run (wakeEnds ++ [.poll 1]) = some n ∧
        (n.callers.find? 1).bind Caller.answer? = some (.address "10.0.0.5") :=
    ⟨_, _, _, _, rfl, rfl, rfl, rfl, rfl⟩
  obtain ⟨k, hgivesUp, hanswer'⟩ :
      ∃ k, (start defaultResumeDeadline).run (dropLate 1 (start defaultResumeDeadline)
          (beginAndJoin .zero ++ (.poll 1 :: .leave 1 :: wakeEnds))) = some k ∧
        (k.callers.find? 1).bind Caller.answer? = some (.error (.wakeTimeout "alpha" .zero)) :=
    ⟨_, rfl, rfl⟩
  have hsame : others 1 (beginAndJoin .zero) = others 1 (beginAndJoin (.ofSeconds 5)) := rfl
  have hstays : .leave 1 ∉ beginAndJoin .zero := by simp [beginAndJoin]
  have hsameLater : others 1 (.poll 1 :: .leave 1 :: wakeEnds) =
      others 1 (wakeEnds ++ [.poll 1]) := rfl
  obtain ⟨n', hchoice, _, _, _, hrecords, hothers⟩ :=
    waiter_independence hrun hcaller hwaits hlater hsame hstays hsameLater
  rw [hgivesUp, Option.some.injEq] at hchoice
  subst n'
  refine ⟨n, k, ?_, hgivesUp, ?_, hrecords, hothers 2 (by decide)⟩
  · exact (Run.after?_append_of_run hrun _).trans hlater
  · rw [hanswer, hanswer']
    simp

end WakeRouter.Manager
