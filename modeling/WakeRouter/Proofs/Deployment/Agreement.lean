import WakeRouter.Deployment
import WakeRouter.Proofs.Deployment.Power
import WakeRouter.Proofs.Router.Visits

/-!
# The records agree with the control plane

Records are told of what the control plane does only when its calls end, and callers, wakes and
ticks go on meanwhile.  As long as nobody else switches machines, each machine is the instance
of one key at most and ticks come one at a time, a record that says that its machine runs is
right, and so is one that says that it does not; only while a pause call takes effect does the
record of its key lag behind.
-/

namespace WakeRouter

namespace Manager

variable {m : Manager} {f f' : Fleet}

/-- What the records say about the machines is so, but for the keys in the list, whose pause
calls have still to be recorded. -/
structure Agrees (m : Manager) (f : Fleet) (pausing : List String) : Prop where
  running : ∀ {key r}, m.records.find? key = some r → r.state = .running → key ∉ pausing →
    f.statusOf? r.handle = some .running
  asleep : ∀ {key r}, m.records.find? key = some r → r.state = .paused ∨ r.state = .unknown →
    f.statusOf? r.handle ≠ some .running

theorem Event.isQuiet_of_isVisit {e : Event} (hvisit : e.isVisit) : e.isQuiet := by
  cases e <;> first | rfl | cases hvisit

theorem InStep.visited {m' : Manager} (hf : m.InStep f) (hm : m.Consistent)
    (hvisited : m.Visited m') : m'.InStep f :=
  (hm.invariant (P := fun n => n.InStep f)
    (fun hn hf hvisit hstep => hf.quiet hn (Event.isQuiet_of_isVisit hvisit) hstep) hvisited hf).2

theorem InStep.agrees (hf : m.InStep f) (hm : m.WakesHeld) : m.Agrees f [] := by
  constructor
  case running =>
    intro key r hr hstate _
    obtain ⟨status, hstatus, hup⟩ := hf key r hr (by simp [hstate])
    rw [hstatus, hup.mpr (by simp [isUp, hstate])]
  case asleep =>
    intro key r hr hstate hrunning
    obtain ⟨status, hstatus, hup⟩ := hf key r hr (by rcases hstate with h | h <;> simp [h])
    rw [hrunning, Option.some.injEq] at hstatus
    have hfree : r.wake? = none := by
      have hwaking := hm.waking_iff hr
      rcases hstate with h | h <;> simpa [h] using hwaking
    have hstill := hup.mp hstatus.symm
    rw [isUp_of_free hfree] at hstill
    rcases hstate with h | h <;> simp [h] at hstill

theorem InStep.agrees_of_perform (hf : m.InStep f) (hm : m.WakesHeld) (hunshared : m.Unshared)
    {key : String} {r : Record} (hr : m.records.find? key = some r) {pausing : List String}
    (hself : r.state = .running ∧ key ∈ pausing ∨ r.state = .waking) (call : PowerCall) :
    m.Agrees (f.perform call r.handle).2 pausing := by
  have hknown : r.state ≠ .notFound := by
    rcases hself with ⟨h, _⟩ | h <;> simp [h]
  have hagrees := hf.agrees hm
  -- The call concerns no other key, and of its own key nothing is said.
  have hother : ∀ key' r', m.records.find? key' = some r' → r'.state ≠ .notFound → key' ≠ key →
      (f.perform call r.handle).2.statusOf? r'.handle = f.statusOf? r'.handle := by
    intro key' r' hr' hknown' hkey
    exact f.statusOf?_perform_of_ne call (hunshared.handle_ne hr hr' hknown hknown' hkey)
  constructor
  case running =>
    intro key' r' hr' hstate hlisted
    have hkey : key' ≠ key := by
      rintro rfl
      rw [hr, Option.some.injEq] at hr'
      rcases hself with ⟨_, hmem⟩ | hwaking
      · exact hlisted hmem
      · rw [hr', hstate] at hwaking
        cases hwaking
    rw [hother key' r' hr' (by simp [hstate]) hkey]
    exact hagrees.running hr' hstate List.not_mem_nil
  case asleep =>
    intro key' r' hr' hstate
    have hkey : key' ≠ key := by
      rintro rfl
      rw [hr, Option.some.injEq] at hr'
      subst hr'
      rcases hself with ⟨h, _⟩ | h <;> simp [h] at hstate
    have hknown' : r'.state ≠ .notFound := by
      rcases hstate with h | h <;> simp [h]
    rw [hother key' r' hr' hknown' hkey]
    exact hagrees.asleep hr' hstate

end Manager

namespace Upkeep

/-- The watchers leave wakes alone, and the records are in step with the fleet. -/
structure Upheld (u : Upkeep) (f : Fleet) : Prop where
  guarded : u.Guarded
  inStep : u.manager.InStep f

variable {u u' next : Upkeep} {f f' : Fleet}

theorem Upheld.visited (hu : u.Upheld f) (hvisited : u.Visited u') : u'.Upheld f where
  guarded := hu.guarded.visited hvisited
  inStep := hu.inStep.visited hu.guarded.consistent hvisited.manager

theorem Upheld.quiet (hu : u.Upheld f) (hone : u.OneTick) {e : Event}
    (hown : ∀ key, e ≠ .manager (.markPaused key))
    (hanswer : Deployment.isAnswer (.upkeep e) = false) (hstep : u.step e = some next) :
    next.Upheld f := by
  refine ⟨hu.guarded.step hone hown hstep, ?_⟩
  rcases manager_of_step hstep with
    hsame | ⟨heard, hheard, rfl | ⟨t, tick, key, handle, rest, rfl, _⟩⟩
  · exact hsame ▸ hu.inStep
  · have hquiet : heard.isQuiet := by
      cases heard with
      | described | resumed => cases hanswer
      | markPaused key => exact absurd rfl (hown key)
      | elapse | lookup | ensure | engage | poll | cancel | leave | resume | overrun | brokeDown
      | deliver | touch => rfl
    exact hu.inStep.quiet hu.guarded.consistent hquiet hheard
  · cases hanswer

theorem Upheld.described (hu : u.Upheld f) (hone : u.OneTick)
    (hapart : (f.nodes.map Node.hostname).Nodup) {c : CallerId} {caller : Caller}
    (hcaller : u.manager.callers.find? c = some caller)
    (hstep : u.step (.manager (.described c (f.describe caller.key))) = some next) :
    next.Upheld f := by
  refine ⟨hu.guarded.step hone (by simp) hstep, ?_⟩
  obtain ⟨m, hm, rfl⟩ := Option.map_eq_some_iff.mp hstep
  exact hu.inStep.described hapart hcaller hm

theorem Upheld.resumed (hu : u.Upheld f) (hone : u.OneTick) (hunshared : u.manager.Unshared)
    {e : Episode} {wake : Wake} (hwake : u.manager.wakes.find? e = some wake)
    {result : Acknowledgement}
    (hself : ∀ status, f.statusOf? wake.handle = some status → status ≠ .running →
      ∃ status', f'.statusOf? wake.handle = some status' ∧ (status' = .running ↔ result = .done))
    (hothers : ∀ name, name ≠ wake.handle → f'.statusOf? name = f.statusOf? name)
    (hstep : u.step (.manager (.resumed e result)) = some next) : next.Upheld f' := by
  refine ⟨hu.guarded.step hone (by simp) hstep, ?_⟩
  obtain ⟨m, hm, rfl⟩ := Option.map_eq_some_iff.mp hstep
  cases Manager.move_of_step hm with
  | resumed hwake' hstage =>
      rw [hwake, Option.some.injEq] at hwake'
      subst hwake'
      exact hu.inStep.resumed hu.guarded.consistent.wakes hunshared hwake hstage hself hothers

theorem Upheld.performResume (hu : u.Upheld f) (hone : u.OneTick)
    (hunshared : u.manager.Unshared) {e : Episode} {wake : Wake}
    (hwake : u.manager.wakes.find? e = some wake)
    (hstep : u.step (.manager (.resumed e (f.perform .resume wake.handle).1)) = some next) :
    next.Upheld (f.perform .resume wake.handle).2 := by
  apply hu.resumed hone hunshared hwake _ _ hstep
  · intro status hstatus hdown
    rcases f.perform_cases .resume wake.handle with ⟨cause, hfailed⟩ | ⟨f', hdone, hnow⟩
    · rw [hfailed]
      exact ⟨status, hstatus, by simp [hdown]⟩
    · rw [hdone, hnow, if_pos rfl]
      exact ⟨.running, rfl, by simp⟩
  · intro name hne
    exact f.statusOf?_perform_of_ne .resume hne

theorem Upheld.performPause (hu : u.Upheld f) (hone : u.OneTick) (hunshared : u.manager.Unshared)
    {t : TickId} {tick : Tick} {key handle : String} {rest : List String}
    (htick : u.ticks[t]? = some tick) (hphase : tick.phase = .pausing key handle rest)
    (hstep : u.step (.paused t (f.perform .pause handle).1) = some next) :
    next.Upheld (f.perform .pause handle).2 := by
  refine ⟨hu.guarded.step hone (by simp) hstep, ?_⟩
  have hlined := hu.guarded.lined htick hphase
  obtain ⟨r, hr, hstate, hhandle⟩ := hlined.record
  rw [manager_of_paused htick hphase hstep]
  rcases f.perform_cases .pause handle with ⟨cause, hfailed⟩ | ⟨f', hdone, hnow⟩
  · rw [hfailed]
    exact hu.inStep
  · rw [hdone]
    subst hhandle
    apply hu.inStep.paused hu.guarded.consistent.wakes hunshared hr hstate
    · rw [hnow, if_pos rfl]
      rfl
    · intro name hne
      rw [hnow, if_neg hne]

end Upkeep

namespace Deployment

/-- No two machines have the same name, each is the instance of one key at most, and one tick
at most is in progress. -/
structure Orderly (d : Deployment) : Prop where
  hostnames : (d.fleet.nodes.map Node.hostname).Nodup
  unshared : d.router.manager.Unshared
  oneTick : d.router.upkeep.OneTick

instance (d : Deployment) : Decidable d.Orderly :=
  decidable_of_iff
    ((d.fleet.nodes.map Node.hostname).Nodup ∧ d.router.manager.Unshared ∧ d.router.upkeep.OneTick)
    ⟨fun h => ⟨h.1, h.2.1, h.2.2⟩, fun h => ⟨h.1, h.2, h.3⟩⟩

variable {d next : Deployment}

theorem upheld_of_step (hd : d.router.upkeep.Upheld d.fleet) (horderly : d.Orderly) {e : Event}
    (hown : ∀ key, e ≠ .router (.upkeep (.manager (.markPaused key))))
    (hstep : d.step e = some next) : next.router.upkeep.Upheld next.fleet := by
  obtain ⟨hapart, hunshared, hone⟩ := horderly
  cases e with
  | router e =>
      simp only [step, Option.ite_none_left_eq_some, Bool.not_eq_true] at hstep
      obtain ⟨hanswer, hstep⟩ := hstep
      obtain ⟨router, hrouter, rfl⟩ := Option.map_eq_some_iff.mp hstep
      cases Router.heard_of_step hrouter with
      | own hu hvisited =>
          have hother := fun key he => hown key (congrArg (Event.router ∘ Router.Event.upkeep) he)
          exact (hd.quiet hone hother hanswer hu).visited hvisited
      | visits _ hvisited => exact hd.visited hvisited
  | described c =>
      simp only [step, bind, Option.bind_eq_some_iff] at hstep
      obtain ⟨caller, hcaller, router, hrouter, hnext⟩ := hstep
      obtain rfl := Option.some.inj hnext
      obtain ⟨u, hu, hvisited⟩ := (Router.heard_of_step hrouter).own_of_upkeep
      exact (hd.described hone hapart hcaller hu).visited hvisited
  | resumed e =>
      simp only [step, bind, Option.bind_eq_some_iff] at hstep
      obtain ⟨wake, hwake, router, hrouter, hnext⟩ := hstep
      obtain rfl := Option.some.inj hnext
      obtain ⟨u, hu, hvisited⟩ := (Router.heard_of_step hrouter).own_of_upkeep
      exact (hd.performResume hone hunshared hwake hu).visited hvisited
  | paused t =>
      simp only [step, bind, Option.bind_eq_some_iff] at hstep
      obtain ⟨tick, htick, hstep⟩ := hstep
      split at hstep
      next hphase =>
        simp only [Option.bind_eq_some_iff] at hstep
        obtain ⟨router, hrouter, hnext⟩ := hstep
        obtain rfl := Option.some.inj hnext
        obtain ⟨u, hu, hvisited⟩ := (Router.heard_of_step hrouter).own_of_upkeep
        exact (hd.performPause hone hunshared htick hphase hu).visited hvisited
      next => cases hstep
  | fleet change =>
      obtain rfl := Option.some.inj hstep
      exact ⟨hd.guarded, hd.inStep.change change⟩

theorem upheld_of_run {deadline : Duration} {port : UInt16} {wakeTimeout : Duration}
    {fleet : Fleet} {es : List Event} {d : Deployment}
    (hrun : Run.after? step ⟨.start deadline port wakeTimeout, fleet⟩ es = some d)
    (hstates : ∀ v ∈ Run.states step ⟨.start deadline port wakeTimeout, fleet⟩ es, v.Orderly)
    (hown : ∀ key, .router (.upkeep (.manager (.markPaused key))) ∉ es) :
    d.router.upkeep.Upheld d.fleet := by
  apply Run.induction (P := fun d : Deployment => d.router.upkeep.Upheld d.fleet) (Q := Orderly)
    (A := fun e => ∀ key, e ≠ .router (.upkeep (.manager (.markPaused key)))) _ _ hrun hstates
  · rintro e he key rfl
    exact hown key he
  · intro v e next hv horderly hother hstep
    exact upheld_of_step hv horderly hother hstep
  · refine ⟨Upkeep.guarded_start deadline, ?_⟩
    intro key r hr
    cases hr

/-- In every orderly run whose machines nobody else switches, the records agree with the
control plane, also after a call has taken effect that the records have not heard of: a pause
call may only run ahead of the record of its own key, and a resume call of none. -/
theorem records_agree {deadline : Duration} {port : UInt16} {wakeTimeout : Duration}
    {fleet : Fleet} {es : List Event} {d : Deployment}
    (hrun : Run.after? step ⟨.start deadline port wakeTimeout, fleet⟩ es = some d)
    (hstates : ∀ v ∈ Run.states step ⟨.start deadline port wakeTimeout, fleet⟩ es, v.Orderly)
    (hown : ∀ key, .router (.upkeep (.manager (.markPaused key))) ∉ es) :
    d.router.manager.Agrees d.fleet [] ∧
    (∀ (t : TickId) (tick : Tick) key handle rest, d.router.upkeep.ticks[t]? = some tick →
      tick.phase = .pausing key handle rest →
      d.router.manager.Agrees (d.fleet.perform .pause handle).2 [key]) ∧
    (∀ e wake since, d.router.manager.wakes.find? e = some wake →
      wake.stage = .resuming since →
      d.router.manager.Agrees (d.fleet.perform .resume wake.handle).2 []) := by
  obtain ⟨hguarded, hinStep⟩ := upheld_of_run hrun hstates hown
  have hm := hguarded.consistent.wakes
  have hunshared := (hstates d (Run.mem_states_last hrun)).unshared
  refine ⟨hinStep.agrees hm, ?_, ?_⟩
  · intro t tick key handle rest htick hphase
    obtain ⟨r, hr, hstate, rfl⟩ := (hguarded.lined htick hphase).record
    exact hinStep.agrees_of_perform hm hunshared hr (.inl ⟨hstate, List.mem_cons_self⟩) .pause
  · intro e wake since hwake hstage
    obtain ⟨r, hr, he⟩ := hm.undelivered hwake (by simp [hstage])
    obtain ⟨held, hheld, hhandle, _⟩ := hm.target hwake
    rw [hr, Option.some.injEq] at hheld
    subst hheld
    rw [hhandle]
    have hwaking : r.state = .waking := (hm.waking_iff hr).mpr (by simp [he])
    exact hinStep.agrees_of_perform hm hunshared hr (.inr hwaking) .resume

/-- One machine is woken, and both are idle later; the one that was woken is paused first. -/
def twoMachines : List Event :=
  [.router (.upkeep (.manager (.ensure 1 "alpha" (.ofSeconds 5) false))), .described 1,
    .router (.upkeep (.manager (.engage 1))), .router (.upkeep (.manager (.resume 1))),
    .resumed 1, .router (.upkeep (.manager (.deliver 1))),
    .router (.upkeep (.manager (.lookup 2 "beta"))), .described 2,
    .router (.upkeep (.install ⟨.ofSeconds 10, .ofSeconds 60⟩)),
    .router (.upkeep (.manager (.elapse (.ofSeconds 61)))), .router (.upkeep .tick),
    .router (.upkeep (.begin 0 ["alpha", "beta"])), .paused 0]

theorem records_agree_twoMachines :
    ∃ d, Run.after? step ⟨.start Manager.defaultResumeDeadline 80 (.ofSeconds 60),
        .ofNodes [⟨"vm-1", "10.0.0.5", "paused", ["alpha"]⟩,
          ⟨"vm-2", "10.0.0.6", "running", ["beta"]⟩]⟩ twoMachines = some d ∧
      d.router.manager.state? "alpha" = some .paused ∧
      d.fleet.statusOf? "vm-1" ≠ some .running ∧
      d.router.manager.Agrees (d.fleet.perform .pause "vm-2").2 ["beta"] := by
  obtain ⟨d, hrun, hstate, ⟨r, hr, hhandle⟩, tick, htick, hphase⟩ :
      ∃ d, Run.after? step ⟨.start Manager.defaultResumeDeadline 80 (.ofSeconds 60),
          .ofNodes [⟨"vm-1", "10.0.0.5", "paused", ["alpha"]⟩,
            ⟨"vm-2", "10.0.0.6", "running", ["beta"]⟩]⟩ twoMachines = some d ∧
        d.router.manager.state? "alpha" = some .paused ∧
        (∃ r, d.router.manager.records.find? "alpha" = some r ∧ r.handle = "vm-1") ∧
        ∃ tick, d.router.upkeep.ticks[0]? = some tick ∧
          tick.phase = .pausing "beta" "vm-2" [] :=
    ⟨_, rfl, rfl, ⟨_, rfl, rfl⟩, _, rfl, rfl⟩
  obtain ⟨hagrees, hpausing, _⟩ := records_agree hrun (by decide) (by simp [twoMachines])
  refine ⟨d, hrun, hstate, ?_, hpausing 0 tick "beta" "vm-2" [] htick hphase⟩
  rw [Manager.state?, hr, Option.map_some, Option.some.injEq] at hstate
  exact hhandle ▸ hagrees.asleep hr (.inl hstate)

end Deployment

end WakeRouter
