import WakeRouter.Proofs.Manager.Coalescing
import WakeRouter.Proofs.Manager.Idleness
import WakeRouter.Proofs.Watcher.Step

/-!
# Pauses and wakes exclude each other

A tick lists the idle keys once and then pauses their machines one after another, while
requests come and go.  A key that is listed runs, only the end of its own pause call makes it
leave that state, and a key that runs is not woken.  So no wake is under way when the turn of
a key comes, and none begins before its pause call ends.
-/

namespace WakeRouter

def Tick.isPausing (t : Tick) : Bool :=
  match t.phase with
  | .pausing .. => true
  | .scheduled | .done | .broken | .dropped => false

theorem Tick.isPausing_of_phase {t : Tick} {key handle : String} {rest : List String}
    (hphase : t.phase = .pausing key handle rest) : t.isPausing := by
  simp [isPausing, hphase]

namespace Manager

variable {m next : Manager}

/-! ## Keys that are to be paused -/

theorem running_of_step (hm : m.WakesHeld) {e : Event} (hstep : m.step e = some next)
    {key : String} (hother : e ≠ .markPaused key) (hrunning : m.state? key = some .running) :
    next.state? key = some .running ∧ next.handle? key = m.handle? key := by
  obtain ⟨r, hr, hstate⟩ := state?_eq_some_iff.mp hrunning
  have hchange := recordChange_of_step hm hstep key
  unfold state? handle?
  rw [hr] at hchange ⊢
  generalize next.records.find? key = after at hchange ⊢
  cases hchange with
  | kept => exact ⟨congrArg some hstate, rfl⟩
  -- Wakes begin for keys that are asleep, and end for keys that wake.
  | begun c hasleep =>
      rw [hstate] at hasleep
      rcases hasleep with h | h <;> cases h
  | ended _ hwaking =>
      rw [hstate] at hwaking
      cases hwaking
  | touched => exact ⟨congrArg some hstate, rfl⟩
  | paused => exact absurd rfl hother

theorem Consistent.outstanding_of_running (hm : m.Consistent) {key : String}
    (hrunning : m.state? key = some .running) : m.outstanding key = [] := by
  obtain ⟨r, hr, hstate⟩ := state?_eq_some_iff.mp hrunning
  have hwaking := hm.wakes.waking_iff hr
  rw [hm.wakes.outstanding_eq, hr, Option.bind_some]
  cases hwake : r.wake? with
  | none => rfl
  | some e => simp [hstate, hwake] at hwaking

theorem Consistent.begun_of_running (hm : m.Consistent) {e : Event} (hstep : m.step e = some next)
    {key : String} (hrunning : m.state? key = some .running) : next.begun key = m.begun key := by
  rcases begun_of_step hm hstep key with ⟨hsame, _⟩ | ⟨c, _, _, hwaking⟩
  · exact hsame
  · obtain ⟨r, hr, hstate⟩ := state?_eq_some_iff.mp hrunning
    obtain ⟨r', hr', hstate'⟩ := state?_eq_some_iff.mp hwaking
    have hchange := recordChange_of_step hm.wakes hstep key
    rw [hr, hr'] at hchange
    have hturn := hchange.mayTurn (by simp [hstate, hstate'])
    rw [hstate, hstate'] at hturn
    cases hturn

theorem mem_outstanding_of_resume {e : Episode} (hstep : m.step (.resume e) = some next)
    {wake : Wake} (hwake : m.wakes.find? e = some wake) : e ∈ m.outstanding wake.key := by
  cases move_of_step hstep with
  | resume hwake' hstage =>
      rw [hwake, Option.some.injEq] at hwake'
      subst hwake'
      rw [outstanding, Table.mem_keysWhere]
      exact ⟨wake, hwake, by simp [hstage]⟩

/-- The key, whose machine is being paused, and the keys after it run. -/
structure Lined (m : Manager) (key handle : String) (rest : List String) : Prop where
  running : ∀ k ∈ key :: rest, m.state? k = some .running
  nodup : (key :: rest).Nodup
  handle_eq : m.handle? key = some handle

theorem Lined.record {key handle : String} {rest : List String}
    (hlined : m.Lined key handle rest) :
    ∃ r, m.records.find? key = some r ∧ r.state = .running ∧ r.handle = handle := by
  obtain ⟨r, hr, hstate⟩ := state?_eq_some_iff.mp (hlined.running key List.mem_cons_self)
  have hhandle := hlined.handle_eq
  rw [handle?, hr, Option.map_some, Option.filter_eq_some_iff, Option.some.injEq] at hhandle
  exact ⟨r, hr, hstate, hhandle.1⟩

theorem Lined.step (hm : m.WakesHeld) {e : Event} (hstep : m.step e = some next)
    (hother : ∀ key, e ≠ .markPaused key) {key handle : String} {rest : List String}
    (hlined : m.Lined key handle rest) : next.Lined key handle rest := by
  have hkept := fun k hk => running_of_step hm hstep (hother k) (hlined.running k hk)
  constructor
  case running => exact fun k hk => (hkept k hk).1
  case nodup => exact hlined.nodup
  case handle_eq => exact (hkept key List.mem_cons_self).2.trans hlined.handle_eq

/-- A tick that goes through keys that run stops at one of them, before others that do. -/
theorem lined_of_proceed {keys : List String} (hrunning : ∀ k ∈ keys, m.state? k = some .running)
    (hnodup : keys.Nodup) {stopped : Bool} {t : Tick} {key handle : String} {rest : List String}
    (hphase : (t.proceed m.handle? stopped keys).phase = .pausing key handle rest) :
    m.Lined key handle rest := by
  rcases t.phase_proceed m.handle? stopped keys with
    hdone | ⟨skipped, key', handle', rest', rfl, hhandle, hpausing⟩
  · rw [hdone] at hphase
    cases hphase
  · rw [hpausing] at hphase
    cases hphase
    have hlater := List.sublist_append_right skipped (key :: rest)
    exact ⟨fun k hk => hrunning k (hlater.subset hk), hnodup.sublist hlater, hhandle⟩

theorem state?_markPaused_of_ne {key k : String} (hne : k ≠ key) :
    (m.markPaused key).state? k = m.state? k := by
  simp only [state?, markPaused, find?_records_modify, if_neg hne]

theorem state?_markPaused {key : String} (hrunning : m.state? key = some .running) :
    (m.markPaused key).state? key = some .paused := by
  obtain ⟨r, hr, hstate⟩ := state?_eq_some_iff.mp hrunning
  simp [state?, markPaused, find?_records_modify, hr, Record.markPaused, hstate]

end Manager

namespace Upkeep

/-- One tick at most is in progress. -/
def OneTick (u : Upkeep) : Prop :=
  u.ticks.Pairwise fun a b => ¬(a.isPausing ∧ b.isPausing)

instance (u : Upkeep) : Decidable u.OneTick :=
  inferInstanceAs (Decidable (u.ticks.Pairwise _))

variable {u next : Upkeep}

theorem OneTick.eq_of_pausing (hone : u.OneTick) {t t' : TickId} {tick tick' : Tick}
    (htick : u.ticks[t]? = some tick) (htick' : u.ticks[t']? = some tick')
    (hpausing : tick.isPausing) (hpausing' : tick'.isPausing) : t = t' := by
  obtain ⟨ht, rfl⟩ := List.getElem?_eq_some_iff.mp htick
  obtain ⟨ht', rfl⟩ := List.getElem?_eq_some_iff.mp htick'
  have hapart := List.pairwise_iff_getElem.mp hone
  rcases Nat.lt_trichotomy t t' with hlt | heq | hgt
  · exact absurd ⟨hpausing, hpausing'⟩ (hapart t t' ht ht' hlt)
  · exact heq
  · exact absurd ⟨hpausing', hpausing⟩ (hapart t' t ht' ht hgt)

/-! ## One step -/

/-- Each tick that pauses a machine does so for a key that runs, and so do the keys that the
tick has still to come to. -/
structure Guarded (u : Upkeep) : Prop where
  consistent : u.manager.Consistent
  lined : ∀ {t : TickId} {tick : Tick} {key handle : String} {rest : List String},
    u.ticks[t]? = some tick → tick.phase = .pausing key handle rest →
    u.manager.Lined key handle rest

theorem guarded_start (deadline : Duration) : (ofManager (.start deadline)).Guarded := by
  constructor
  case consistent => exact Manager.consistent_start deadline
  case lined =>
    intro t tick key handle rest htick
    cases htick

theorem Guarded.ofSame (hu : u.Guarded) (hsame : u.SameWork next) : next.Guarded := by
  obtain ⟨hmanager, hticks⟩ := hsame
  constructor
  case consistent => exact hmanager ▸ hu.consistent
  case lined =>
    rw [hmanager, hticks]
    exact hu.lined

theorem Guarded.schedule (hu : u.Guarded) {tick : Tick} (hquiet : tick.phase = .scheduled) :
    (u.schedule tick).Guarded := by
  constructor
  case consistent => exact hu.consistent
  case lined =>
    intro t tick' key handle rest htick hphase
    rcases List.mem_append.mp (List.mem_of_getElem? htick) with hold | hnew
    · obtain ⟨t', ht'⟩ := List.getElem?_of_mem hold
      exact hu.lined ht' hphase
    · rw [List.mem_singleton.mp hnew, hquiet] at hphase
      cases hphase

theorem guarded_setTick {t : TickId} {tick : Tick} (hm : u.manager.Consistent)
    (hself : ∀ key handle rest, tick.phase = .pausing key handle rest →
      u.manager.Lined key handle rest)
    (hothers : ∀ (t' : TickId) (tick' : Tick) key handle rest, t ≠ t' →
      u.ticks[t']? = some tick' → tick'.phase = .pausing key handle rest →
      u.manager.Lined key handle rest) :
    (u.setTick t tick).Guarded := by
  constructor
  case consistent =>
    rw [manager_setTick]
    exact hm
  case lined =>
    intro t' tick' key handle rest htick' hphase
    rw [ticks_setTick, List.getElem?_set] at htick'
    rw [manager_setTick]
    split at htick'
    next =>
      split at htick'
      · cases htick'
        exact hself key handle rest hphase
      · cases htick'
    next hne => exact hothers t' tick' key handle rest hne htick' hphase

theorem Guarded.setTick (hu : u.Guarded) {t : TickId} {tick : Tick}
    (hself : ∀ key handle rest, tick.phase = .pausing key handle rest →
      u.manager.Lined key handle rest) : (u.setTick t tick).Guarded :=
  guarded_setTick hu.consistent hself fun _ _ _ _ _ _ => hu.lined

theorem Guarded.begin (hu : u.Guarded) {t : TickId} {tick : Tick} {keys : List String}
    (hkeys : keys.Perm (u.manager.idleKeys tick.idleTimeout)) :
    (u.begin t tick keys).Guarded := by
  have hrunning : ∀ k ∈ keys, u.manager.state? k = some .running := by
    intro k hk
    obtain ⟨r, hr, hstate, _⟩ := Manager.mem_idleKeys.mp (hkeys.mem_iff.mp hk)
    exact Manager.state?_eq_some_iff.mpr ⟨r, hr, hstate⟩
  have hnodup : keys.Nodup := hkeys.nodup_iff.mpr (u.manager.nodup_idleKeys tick.idleTimeout)
  apply hu.setTick
  intro key handle rest hphase
  exact Manager.lined_of_proceed hrunning hnodup hphase

theorem Guarded.paused (hu : u.Guarded) (hone : u.OneTick) {t : TickId} {tick : Tick}
    {key handle : String} {rest : List String} (htick : u.ticks[t]? = some tick)
    (hphase : tick.phase = .pausing key handle rest) (result : Acknowledgement) :
    (({ u with manager := afterPause u.manager key result } : Upkeep).proceed t
      (tick.count result) rest).Guarded := by
  have hlined := hu.lined htick hphase
  obtain ⟨hfresh, hnodup⟩ := List.nodup_cons.mp hlined.nodup
  have hm : (afterPause u.manager key result).Consistent := by
    cases result with
    | done => exact hu.consistent.step (e := .markPaused key) rfl
    | failed cause => exact hu.consistent
  have hrunning : ∀ k ∈ rest, (afterPause u.manager key result).state? k = some .running := by
    intro k hk
    have hbefore := hlined.running k (List.mem_cons_of_mem _ hk)
    cases result with
    | done =>
        -- No key is twice on the list, so the one that was paused does not come again.
        have hne : k ≠ key := fun hsame => hfresh (hsame ▸ hk)
        exact (Manager.state?_markPaused_of_ne hne).trans hbefore
    | failed cause => exact hbefore
  apply guarded_setTick hm
  case hself =>
    intro key' handle' rest' hphase'
    exact Manager.lined_of_proceed hrunning hnodup hphase'
  case hothers =>
    -- The key may not run any more, but no other tick has a list that it could be on.
    intro t' tick' key' handle' rest' hne htick' hphase'
    have hsame := hone.eq_of_pausing htick htick' (Tick.isPausing_of_phase hphase)
      (Tick.isPausing_of_phase hphase')
    exact absurd hsame hne

theorem Guarded.step (hu : u.Guarded) (hone : u.OneTick) {e : Event}
    (hown : ∀ key, e ≠ .manager (.markPaused key)) (hstep : u.step e = some next) :
    next.Guarded := by
  -- Lists come with the idle keys and get shorter with each pause call.  All else leaves them
  -- as they are, and the manager lets listed keys run.
  cases move_of_step hstep with
  | @manager e m hm =>
      have hother : ∀ key, e ≠ .markPaused key := fun key he => hown key (congrArg _ he)
      constructor
      case consistent => exact hu.consistent.step hm
      case lined =>
        intro t tick key handle rest htick hphase
        exact (hu.lined htick hphase).step hu.consistent.wakes hm hother
  | install schedule => exact hu.ofSame (sameWork_install u schedule)
  | discard => exact hu.ofSame (sameWork_discard u)
  | start => exact hu.ofSame (sameWork_start u _)
  | stop => exact hu.ofSame (sameWork_stop u _)
  | enter | settle | quit => exact hu.ofSame ⟨rfl, rfl⟩
  | ring =>
      apply Guarded.schedule _ rfl
      exact hu.ofSame ⟨rfl, rfl⟩
  | tick => exact hu.schedule rfl
  | begin _ _ hkeys => exact hu.begin hkeys
  | paused htick hphase result => exact hu.paused hone htick hphase result
  | breakDown =>
      apply hu.setTick
      rintro key handle rest ⟨⟩
  | dropTick =>
      apply hu.setTick
      rintro key handle rest ⟨⟩

theorem manager_of_paused {t : TickId} {tick : Tick} {key handle : String} {rest : List String}
    (htick : u.ticks[t]? = some tick) (hphase : tick.phase = .pausing key handle rest)
    {result : Acknowledgement} (hstep : u.step (.paused t result) = some next) :
    next.manager = afterPause u.manager key result := by
  cases move_of_step hstep with
  | paused htick' hphase' result =>
      rw [htick, Option.some.injEq] at htick'
      subst htick'
      rw [hphase] at hphase'
      cases hphase'
      exact manager_setTick { u with manager := afterPause u.manager key result } t _

/-! ## Runs -/

theorem guarded_of_run {deadline : Duration} {es : List Event}
    (hrun : Run.after? step (ofManager (.start deadline)) es = some u)
    (hticks : ∀ v ∈ Run.states step (ofManager (.start deadline)) es, v.OneTick)
    (hown : ∀ key, .manager (.markPaused key) ∉ es) : u.Guarded := by
  apply Run.induction (P := Guarded) (Q := OneTick)
    (A := fun e => ∀ key, e ≠ .manager (.markPaused key)) _ (guarded_start deadline) hrun hticks
  · rintro e he key rfl
    exact hown key he
  · intro v e next hv hone hother hstep
    exact hv.step hone hother hstep

theorem begun_of_step (hm : u.manager.Consistent) {e : Event} (hstep : u.step e = some next)
    {key : String} (hrunning : u.manager.state? key = some .running) :
    next.manager.begun key = u.manager.begun key := by
  rcases manager_of_step hstep with hsame | ⟨heard, hheard, _⟩
  · rw [hsame]
  · exact hm.begun_of_running hheard hrunning

/-- As long as one tick at most is in progress and nobody else marks machines as paused: while
the machine of a key is being paused, the key runs, no wake of it is under way and none
begins; the end of the pause call finds it running, too. -/
theorem pause_excludes_wake {deadline : Duration} {es : List Event}
    (hrun : Run.after? step (ofManager (.start deadline)) es = some u)
    (hticks : ∀ v ∈ Run.states step (ofManager (.start deadline)) es, v.OneTick)
    (hown : ∀ key, .manager (.markPaused key) ∉ es)
    {t : TickId} {tick : Tick} {key handle : String} {rest : List String}
    (htick : u.ticks[t]? = some tick) (hphase : tick.phase = .pausing key handle rest) :
    u.manager.state? key = some .running ∧ u.manager.handle? key = some handle ∧
    u.manager.outstanding key = [] ∧
    (∀ e next, u.step e = some next → next.manager.begun key = u.manager.begun key) ∧
    (∀ e wake, u.manager.wakes.find? e = some wake → wake.key = key →
      u.step (.manager (.resume e)) = none) ∧
    (∀ next, u.step (.paused t .done) = some next →
      next.manager = u.manager.markPaused key ∧ next.manager.state? key = some .paused) := by
  have hguarded := guarded_of_run hrun hticks hown
  have hm := hguarded.consistent
  have hlined := hguarded.lined htick hphase
  have hrunning := hlined.running key List.mem_cons_self
  have hnone := hm.outstanding_of_running hrunning
  refine ⟨hrunning, hlined.handle_eq, hnone, ?_, ?_, ?_⟩
  · intro e next hstep
    exact begun_of_step hm hstep hrunning
  · intro e wake hwake hkey
    apply Option.eq_none_iff_forall_ne_some.mpr
    intro next hstep
    obtain ⟨m, hresume, rfl⟩ := Option.map_eq_some_iff.mp hstep
    have hbusy := Manager.mem_outstanding_of_resume hresume hwake
    rw [hkey, hnone] at hbusy
    cases hbusy
  · intro next hstep
    have hmanager := manager_of_paused htick hphase hstep
    rw [hmanager]
    exact ⟨rfl, Manager.state?_markPaused hrunning⟩

/-- Two machines are idle at once.  While the second is being paused, the first is woken
again. -/
def twoIdle : List Event :=
  [.manager (.lookup 1 "alpha"),
    .manager (.described 1 (.ok [⟨"vm-1", "10.0.0.5", "Running", ["alpha"]⟩])),
    .manager (.lookup 2 "beta"),
    .manager (.described 2 (.ok [⟨"vm-2", "10.0.0.6", "Running", ["beta"]⟩])),
    .install ⟨.ofSeconds 10, .ofSeconds 60⟩, .manager (.elapse (.ofSeconds 61)), .tick,
    .begin 0 ["alpha", "beta"], .manager (.touch "beta"), .paused 0 .done,
    .manager (.ensure 3 "alpha" (.ofSeconds 5) false), .manager (.engage 3),
    .manager (.resume 3)]

theorem pause_excludes_wake_twoIdle :
    ∃ u, Run.after? step (ofManager (.start Manager.defaultResumeDeadline)) twoIdle = some u ∧
      u.manager.outstanding "alpha" = [3] ∧ u.manager.outstanding "beta" = [] ∧
      u.manager.state? "beta" = some .running := by
  obtain ⟨u, hrun, hwoken, tick, htick, hphase⟩ :
      ∃ u, Run.after? step (ofManager (.start Manager.defaultResumeDeadline)) twoIdle = some u ∧
        u.manager.outstanding "alpha" = [3] ∧
        ∃ tick, u.ticks[0]? = some tick ∧ tick.phase = .pausing "beta" "vm-2" [] :=
    ⟨_, rfl, rfl, _, rfl, rfl⟩
  obtain ⟨hrunning, _, hnone, _⟩ :=
    pause_excludes_wake hrun (by decide) (by simp [twoIdle]) htick hphase
  exact ⟨u, hrun, hwoken, hnone, hrunning⟩

end Upkeep

end WakeRouter
