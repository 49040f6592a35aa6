import WakeRouter.Proofs.Watcher.Fates
import WakeRouter.Proofs.Watcher.Lifecycle

/-!
# Accounts of a tick

A tick that has the manager to itself goes through the keys that were idle when it began.  What
becomes of a key is up to its handle and to the answer of the control plane, whatever becomes of
the keys before it.  `Upkeep.Account` says what a tick has done when some of its keys have had
their turn; it can be told to stop at any of them.
-/

namespace WakeRouter

namespace Upkeep

variable {u v next : Upkeep} {t : TickId} {tick now : Tick} {answers : String → Acknowledgement}
  {keys handled : List String} {ts : List (Run.Transition Upkeep Event)}

def call? (u : Upkeep) (t : TickId) : Option (String × String) :=
  (u.ticks[t]?).bind Tick.call?

/-- The pause calls that the tick begins in the steps. -/
def calls (t : TickId) (ts : List (Run.Transition Upkeep Event)) : List (String × String) :=
  ts.filterMap fun s => if s.event.advances? = some t then s.after.call? t else none

/-- The step leaves the manager to the tick.  Time may pass, watchers may come and go, and their
loops go on; but nobody uses or wakes a machine, no other pause call ends, and those of the tick
end as the control plane answers for their machines. -/
def leavesTo (t : TickId) (answers : String → Acknowledgement)
    (s : Run.Transition Upkeep Event) : Bool :=
  match s.event with
  | .manager (.elapse _) => true
  | .manager _ => false
  | .paused i result => i == t && (s.before.call? t).any fun call => result == answers call.2
  | .breakDown i | .dropTick i => i != t
  | .install _ | .discard | .start | .stop | .enter _ | .ring _ | .settle _ | .quit _ | .tick
  | .begin .. => true

/-- When the tick looks at the signal, it has been told to stop. -/
def FindsSignal (t : TickId) (tick : Tick) (ts : List (Run.Transition Upkeep Event)) : Prop :=
  ∃ s ∈ ts, s.event.advances? = some t ∧ s.before.isStopped tick

/-! ## Ticks that have not begun -/

/-- A tick that has not begun has counted nothing. -/
def Fresh (u : Upkeep) : Prop :=
  ∀ tick ∈ u.ticks, tick.phase = .scheduled → tick.stats = ⟨0, 0, 0, 0⟩

theorem Fresh.ofSame (hu : u.Fresh) (hsame : u.SameWork next) : next.Fresh := by
  rw [Fresh, hsame.ticks_eq]
  exact hu

theorem Fresh.schedule (hu : u.Fresh) {last : Tick} (hstats : last.stats = ⟨0, 0, 0, 0⟩) :
    (u.schedule last).Fresh := by
  intro tick htick hphase
  rcases List.mem_append.mp htick with hold | hnew
  · exact hu tick hold hphase
  · rw [List.mem_singleton.mp hnew, hstats]

theorem Fresh.setTick (hu : u.Fresh) {last : Tick} (hphase : last.phase ≠ .scheduled) :
    (u.setTick t last).Fresh := by
  intro tick htick hscheduled
  rw [ticks_setTick] at htick
  rcases List.mem_or_eq_of_mem_set htick with hold | rfl
  · exact hu tick hold hscheduled
  · exact absurd hscheduled hphase

theorem phase_proceed_ne_scheduled (handleOf : String → Option String) (stopped : Bool)
    (tick : Tick) (keys : List String) :
    (tick.proceed handleOf stopped keys).phase ≠ .scheduled := by
  rcases tick.phase_proceed handleOf stopped keys with h | ⟨_, _, _, _, _, _, h⟩ <;> simp [h]

theorem Fresh.step (hu : u.Fresh) {e : Event} (hstep : u.step e = some next) : next.Fresh := by
  cases move_of_step hstep with
  | manager | enter | settle | quit => exact hu
  | install schedule => exact hu.ofSame (sameWork_install u schedule)
  | discard => exact hu.ofSame (sameWork_discard u)
  | start => exact hu.ofSame (sameWork_start u _)
  | stop => exact hu.ofSame (sameWork_stop u _)
  | ring => exact Fresh.schedule hu rfl
  | tick => exact hu.schedule rfl
  | begin => exact hu.setTick (phase_proceed_ne_scheduled _ _ _ _)
  | @paused _ _ key _ _ _ _ result =>
      exact Fresh.setTick (u := { u with manager := afterPause u.manager key result }) hu
        (phase_proceed_ne_scheduled _ _ _ _)
  | breakDown => exact hu.setTick (by simp)
  | dropTick => exact hu.setTick (by simp)

theorem fresh_of_run {m : Manager} {es : List Event}
    (hrun : Run.after? step (ofManager m) es = some u) : u.Fresh := by
  apply Run.induction (P := Fresh) (Q := fun _ => True) (A := fun _ => True) _ _ hrun
    (fun _ _ => trivial) fun _ _ => trivial
  · intro v e next hv _ _ hstep
    exact hv.step hstep
  · intro tick htick
    cases htick

/-! ## Progress of a tick -/

/-- The tick, which began with the keys when the upkeep was `u`, has come to the end of the
handled ones. -/
inductive Stands (u : Upkeep) (t : TickId) (tick : Tick) (keys handled : List String)
    (ts : List (Run.Transition Upkeep Event)) (now : Tick) : Prop
  | pausing {key handle : String} {rest : List String}
      (hphase : now.phase = .pausing key handle rest)
      (hkeys : keys = handled ++ key :: rest) (hhandle : u.manager.handle? key = some handle)
      (hcalls : calls t ts = u.manager.pauseCalls (handled ++ [key]))
  | ended {rest : List String} (hphase : now.phase = .done) (hkeys : keys = handled ++ rest)
      (hcalls : calls t ts = u.manager.pauseCalls handled)
      (hend : rest = [] ∨ FindsSignal t tick ts)

/-- What the turns of the handled keys have come to. -/
structure Handled (u : Upkeep) (tick : Tick) (answers : String → Acknowledgement)
    (keys handled : List String) (v : Upkeep) (now : Tick) : Prop where
  manager : v.manager = { u.manager.pauseAll answers handled with now := v.manager.now }
  clock : u.manager.now ≤ v.manager.now
  source : now.source = tick.source
  stats : now.stats = u.manager.tally answers keys.length handled

structure Progress (u : Upkeep) (t : TickId) (tick : Tick) (answers : String → Acknowledgement)
    (keys handled : List String) (ts : List (Run.Transition Upkeep Event)) (v : Upkeep)
    (now : Tick) : Prop extends u.Handled tick answers keys handled v now where
  found : v.ticks[t]? = some now
  stands : u.Stands t tick keys handled ts now

theorem calls_concat (t : TickId) (ts : List (Run.Transition Upkeep Event))
    (s : Run.Transition Upkeep Event) :
    calls t (ts ++ [s]) =
      calls t ts ++ (if s.event.advances? = some t then s.after.call? t else none).toList := by
  rw [calls, List.filterMap_append, calls]
  cases h : (if s.event.advances? = some t then s.after.call? t else none) <;> simp [h]

theorem Stands.concat (hstands : u.Stands t tick keys handled ts now)
    {s : Run.Transition Upkeep Event} (hother : s.event.advances? ≠ some t) :
    u.Stands t tick keys handled (ts ++ [s]) now := by
  have hcalls : calls t (ts ++ [s]) = calls t ts := by simp [calls_concat, hother]
  cases hstands with
  | pausing hphase hkeys hhandle hold => exact .pausing hphase hkeys hhandle (hcalls.trans hold)
  | ended hphase hkeys hold hend =>
      refine .ended hphase hkeys (hcalls.trans hold) (hend.imp_right ?_)
      rintro ⟨s', hs', hfinds⟩
      exact ⟨s', List.mem_append_left _ hs', hfinds⟩

theorem isStopped_congr {tick' : Tick} (hsource : tick'.source = tick.source) :
    u.isStopped tick' = u.isStopped tick := by
  rw [isStopped, isStopped, loop?_eq_of_source hsource]

theorem call?_of_found (hfound : u.ticks[t]? = some now) : u.call? t = now.call? := by
  rw [call?, hfound, Option.bind_some]

theorem Handled.handle?_eq (hhandled : u.Handled tick answers keys handled v now) :
    v.manager.handle? = u.manager.handle? := by
  rw [hhandled.manager]
  exact Manager.handle?_pauseAll u.manager answers handled

theorem Handled.count (hhandled : u.Handled tick answers keys handled v now) {key handle : String}
    (hhandle : u.manager.handle? key = some handle) :
    u.Handled tick answers keys (handled ++ [key])
      { v with manager := afterPause v.manager key (answers handle) }
      (now.count (answers handle)) := by
  constructor
  case manager =>
    rw [Manager.pauseAll_concat hhandle, hhandled.manager]
    cases answers handle <;> rfl
  case clock => cases answers handle <;> exact hhandled.clock
  case source => exact (now.source_count (answers handle)).trans hhandled.source
  case stats => exact Manager.tally_concat hhandle hhandled.stats

/-- The tick goes on to its next pause call, past the keys that have no machine. -/
theorem Handled.proceed (hhandled : u.Handled tick answers keys handled v now) {rest : List String}
    (hrange : t < v.ticks.length) (hkeys : keys = handled ++ rest)
    (hcalls : calls t ts = u.manager.pauseCalls handled)
    {s : Run.Transition Upkeep Event} (hafter : s.after = v.proceed t now rest)
    (hadvances : s.event.advances? = some t)
    (hstopped : v.isStopped now → s.before.isStopped tick) :
    ∃ handled' now', u.Progress t tick answers keys handled' (ts ++ [s]) s.after now' := by
  have hfound : (v.proceed t now rest).ticks[t]? =
      some (now.proceed v.manager.handle? (v.isStopped now) rest) := by
    rw [Upkeep.proceed, ticks_setTick, List.getElem?_set_self hrange]
  obtain ⟨skipped, later, rfl, hskipped, hstats, hphase⟩ :=
    now.proceed_cases v.manager.handle? (v.isStopped now) rest
  rw [hhandled.handle?_eq] at hskipped
  have hcalls' : calls t (ts ++ [s]) = u.manager.pauseCalls handled ++
      (now.proceed v.manager.handle? (v.isStopped now) (skipped ++ later)).call?.toList := by
    rw [calls_concat, hcalls, if_pos hadvances, hafter, call?_of_found hfound]
  refine ⟨handled ++ skipped, _, ⟨?_, ?_, ?_, ?_⟩, hafter ▸ hfound, ?_⟩
  · rw [hafter, Upkeep.proceed, manager_setTick, Manager.pauseAll_append_skipped hskipped]
    exact hhandled.manager
  · rw [hafter, Upkeep.proceed, manager_setTick]
    exact hhandled.clock
  · rw [Tick.source_proceed, hhandled.source]
  · rw [hstats, hhandled.stats, Manager.tally_append_skipped hskipped]
  -- The keys that are passed over have had their turn; what is left is the call that begins.
  rcases hphase with ⟨hdone, hend⟩ | ⟨key, handle, others, rfl, hkey, hpausing⟩
  · refine .ended hdone (by simp [hkeys]) ?_ (hend.imp_right fun h => ?_)
    · have hpast := Manager.pauseCalls_append_skipped handled hskipped []
      rw [List.append_nil, List.append_nil] at hpast
      rw [hcalls', hpast]
      simp [Tick.call?, hdone]
    · exact ⟨s, List.mem_concat_self, hadvances, hstopped h⟩
  · rw [hhandled.handle?_eq] at hkey
    refine .pausing hpausing (by simp [hkeys]) hkey ?_
    rw [hcalls', Manager.pauseCalls_append_skipped handled hskipped]
    simp [Tick.call?, hpausing, Manager.pauseCalls, hkey]

theorem progress_of_begin (answers : String → Acknowledgement) (hu : u.Fresh)
    (htick : u.ticks[t]? = some tick) (hstep : u.step (.begin t keys) = some next) :
    keys.Perm (u.manager.idleKeys tick.idleTimeout) ∧
      ∃ handled now,
        u.Progress t tick answers keys handled [⟨u, .begin t keys, next⟩] next now := by
  cases move_of_step hstep with
  | @begin _ tick' _ htick' hphase hidle =>
      obtain rfl := Option.some.inj (htick.symm.trans htick')
      have hstats : tick.stats = ⟨0, 0, 0, 0⟩ := hu tick (List.mem_of_getElem? htick) hphase
      have hnone : u.Handled tick answers keys [] u
          { tick with stats := { tick.stats with idle := keys.length } } :=
        ⟨rfl, Nat.le_refl _, rfl, by simp [hstats, Manager.tally]⟩
      have hrange : t < u.ticks.length := (List.getElem?_eq_some_iff.mp htick).1
      have hcalls : calls t [] = u.manager.pauseCalls [] := rfl
      exact ⟨hidle, hnone.proceed (s := ⟨u, .begin t keys, _⟩) hrange rfl hcalls rfl rfl id⟩

theorem begin_of_perm {keys' : List String} (hstep : u.step (.begin t keys) = some next)
    (hperm : keys'.Perm keys) : ∃ next', u.step (.begin t keys') = some next' := by
  cases move_of_step hstep with
  | begin htick hphase hidle =>
      have hperm' := List.isPerm_iff.mpr (hperm.trans hidle)
      simp [step, htick, hphase, hperm']

theorem Progress.paused (hprogress : u.Progress t tick answers keys handled ts v now)
    {result : Acknowledgement} (hstep : v.step (.paused t result) = some next)
    (hanswer : (v.call? t).any fun call => result == answers call.2) :
    ∃ handled' now', u.Progress t tick answers keys handled'
      (ts ++ [⟨v, .paused t result, next⟩]) next now' := by
  have hfound := hprogress.found
  cases move_of_step hstep with
  | @paused _ tick' key handle rest htick' hphase result =>
      obtain rfl := Option.some.inj (hfound.symm.trans htick')
      have hresult : result = answers handle := by
        simpa [call?_of_found hfound, Tick.call?, hphase] using hanswer
      subst hresult
      cases hprogress.stands with
      | ended hdone => cases hphase.symm.trans hdone
      | pausing hphase' hkeys hhandle hcalls =>
          obtain ⟨rfl, rfl, rfl⟩ := TickPhase.pausing.inj (hphase.symm.trans hphase')
          have hcounted := hprogress.toHandled.count hhandle
          have hrange : t < v.ticks.length := (List.getElem?_eq_some_iff.mp hfound).1
          exact hcounted.proceed (s := ⟨v, .paused t (answers handle), _⟩) hrange
            (by simp [hkeys]) hcalls rfl rfl (isStopped_congr (u := v) hcounted.source ▸ id)

theorem unmoved_of_step {e : Event} (hstep : v.step e = some next)
    (hleaves : leavesTo t answers ⟨v, e, next⟩) (hother : e.advances? ≠ some t)
    (hfound : v.ticks[t]? = some now) :
    next.manager = { v.manager with now := next.manager.now } ∧
      v.manager.now ≤ next.manager.now ∧ next.ticks[t]? = some now := by
  have hof : SameWork v next → next.manager = { v.manager with now := next.manager.now } ∧
      v.manager.now ≤ next.manager.now ∧ next.ticks[t]? = some now := by
    rintro ⟨hmanager, hticks⟩
    rw [hmanager, hticks]
    exact ⟨rfl, Nat.le_refl _, hfound⟩
  have hset : ∀ {i last}, i ≠ t → (v.setTick i last).ticks[t]? = some now := by
    intro i last hne
    rw [ticks_setTick, List.getElem?_set_ne hne]
    exact hfound
  have hschedule : ∀ {last : Tick}, (v.ticks ++ [last])[t]? = some now := fun {last} => by
    rw [List.getElem?_append_left (List.getElem?_eq_some_iff.mp hfound).1]
    exact hfound
  cases move_of_step hstep with
  | @manager heard m hm =>
      cases heard with
      | elapse d =>
          obtain rfl := Option.some.inj hm
          exact ⟨rfl, Nat.le_add_right _ _, hfound⟩
      | _ => cases hleaves
  | install schedule => exact hof (sameWork_install v schedule)
  | discard => exact hof (sameWork_discard v)
  | start => exact hof (sameWork_start v _)
  | stop => exact hof (sameWork_stop v _)
  | enter | settle | quit => exact hof ⟨rfl, rfl⟩
  | ring | tick => exact ⟨rfl, Nat.le_refl _, hschedule⟩
  | begin =>
      have hne := fun h => hother (congrArg some h)
      rw [Upkeep.begin, proceed, manager_setTick]
      exact ⟨rfl, Nat.le_refl _, hset hne⟩
  | @paused i tick key handle rest htick hphase result =>
      have hi : i = t := by
        simp only [leavesTo, Bool.and_eq_true, beq_iff_eq] at hleaves
        exact hleaves.1
      exact absurd (congrArg some hi) hother
  | breakDown | dropTick =>
      have hne := bne_iff_ne.mp hleaves
      rw [manager_setTick]
      exact ⟨rfl, Nat.le_refl _, hset hne⟩

theorem Progress.unmoved (hprogress : u.Progress t tick answers keys handled ts v now) {e : Event}
    (hstep : v.step e = some next) (hleaves : leavesTo t answers ⟨v, e, next⟩)
    (hother : e.advances? ≠ some t) :
    u.Progress t tick answers keys handled (ts ++ [⟨v, e, next⟩]) next now := by
  obtain ⟨hmanager, hclock, hfound⟩ := unmoved_of_step hstep hleaves hother hprogress.found
  refine ⟨⟨?_, ?_, hprogress.source, hprogress.stats⟩, hfound, hprogress.stands.concat hother⟩
  · rw [hmanager, hprogress.manager]
  · exact Nat.le_trans hprogress.clock hclock

theorem Progress.step (hprogress : u.Progress t tick answers keys handled ts v now) {e : Event}
    (hstep : v.step e = some next) (hleaves : leavesTo t answers ⟨v, e, next⟩) :
    ∃ handled' now', u.Progress t tick answers keys handled' (ts ++ [⟨v, e, next⟩]) next now' := by
  by_cases hadvances : e.advances? = some t
  · cases e with
    | begin i keys' =>
        obtain rfl := Option.some.inj hadvances
        -- The tick has begun before.
        cases move_of_step hstep with
        | @begin _ tick' _ htick' hphase =>
            obtain rfl := Option.some.inj (hprogress.found.symm.trans htick')
            cases hprogress.stands with
            | pausing hphase' => cases hphase.symm.trans hphase'
            | ended hphase' => cases hphase.symm.trans hphase'
    | paused i result =>
        obtain rfl := Option.some.inj hadvances
        simp only [leavesTo, Bool.and_eq_true] at hleaves
        exact hprogress.paused hstep hleaves.2
    | _ => cases hadvances
  · exact ⟨handled, now, hprogress.unmoved hstep hleaves hadvances⟩

theorem progress_of_run (hu : u.Fresh) (htick : u.ticks[t]? = some tick) {es : List Event}
    (hrun : Run.after? step u (.begin t keys :: es) = some v)
    (hleaves : ∀ s ∈ Run.trail step u (.begin t keys :: es), leavesTo t answers s) :
    keys.Perm (u.manager.idleKeys tick.idleTimeout) ∧ ∃ handled now,
      u.Progress t tick answers keys handled (Run.trail step u (.begin t keys :: es)) v now := by
  -- The first step lists the keys; each later one keeps track of those that have had their turn.
  obtain ⟨next, hstep, hrest⟩ := Option.bind_eq_some_iff.mp hrun
  obtain ⟨hidle, hfirst⟩ := progress_of_begin answers hu htick hstep
  refine ⟨hidle, ?_⟩
  rw [Run.trail_cons hstep] at hleaves ⊢
  revert hleaves
  apply Run.trail_induction (P := fun ts v => (∀ s ∈ ts, leavesTo t answers s) →
    ∃ handled now, u.Progress t tick answers keys handled ts v now) _ [_] (fun _ => hfirst) hrest
  intro ts v e next hkept hstep hleaves
  obtain ⟨handled, now, hprogress⟩ := hkept fun s hs => hleaves s (List.mem_append_left _ hs)
  exact hprogress.step hstep (hleaves _ List.mem_concat_self)

/-! ## The end of a tick -/

theorem isStopped_setTick (u : Upkeep) (t : TickId) (tick : Tick) :
    (u.setTick t tick).isStopped tick = u.isStopped tick := by
  unfold isStopped setTick Tick.loop? Tick.watcher?
  cases tick.source <;> rfl

/-- The pause call that a tick waits for can end, and brings the tick on. -/
theorem exists_step (answers : String → Acknowledgement) (hfound : v.ticks[t]? = some now)
    {key handle : String} {rest : List String} (hphase : now.phase = .pausing key handle rest) :
    ∃ e next now', v.step e = some next ∧ leavesTo t answers ⟨v, e, next⟩ ∧
      next.ticks[t]? = some now' ∧ now'.source = now.source ∧
      next.isStopped now = v.isStopped now ∧
      (now'.phase = .done ∨ ∃ key' handle' later,
        now'.phase = .pausing key' handle' later ∧ later.length < rest.length) := by
  obtain ⟨next, hstep⟩ : ∃ next, v.step (.paused t (answers handle)) = some next := by
    simp [step, hfound, hphase]
  have hleaves : leavesTo t answers ⟨v, .paused t (answers handle), next⟩ := by
    simp [leavesTo, call?_of_found hfound, Tick.call?, hphase]
  cases move_of_step hstep with
  | @paused _ tick' _ _ _ htick' hphase' =>
      obtain rfl := Option.some.inj (hfound.symm.trans htick')
      obtain ⟨rfl, rfl, rfl⟩ := TickPhase.pausing.inj (hphase.symm.trans hphase')
      let freed : Upkeep := { v with manager := afterPause v.manager key (answers handle) }
      let counted : Tick := now.count (answers handle)
      have hrange : t < freed.ticks.length := (List.getElem?_eq_some_iff.mp hfound).1
      have hsource := (counted.source_proceed freed.manager.handle? (freed.isStopped counted)
        rest).trans (now.source_count (answers handle))
      refine ⟨_, _, _, hstep, hleaves, ?_, hsource, ?_, ?_⟩
      · rw [proceed, ticks_setTick, List.getElem?_set_self hrange]
      · rw [← isStopped_congr hsource]
        exact (isStopped_setTick freed t _).trans (isStopped_congr hsource)
      · rcases counted.phase_proceed freed.manager.handle? (freed.isStopped counted) rest with
          hdone | ⟨skipped, key', handle', later, hsplit, -, hpausing⟩
        · exact .inl hdone
        · refine .inr ⟨key', handle', later, hpausing, ?_⟩
          simp [hsplit, Nat.lt_add_left]

/-- The tick can come to its end, and does so without a signal unless there is one. -/
def CanEnd (v : Upkeep) (t : TickId) (tick : Tick) (answers : String → Acknowledgement) : Prop :=
  ∃ more w last, Run.after? step v more = some w ∧
    (∀ s ∈ Run.trail step v more, leavesTo t answers s) ∧ w.ticks[t]? = some last ∧
    last.phase = .done ∧
    (¬v.isStopped tick → ¬FindsSignal t tick (Run.trail step v more))

theorem canEnd_of_pausing (answers : String → Acknowledgement) (hsource : now.source = tick.source)
    (hfound : v.ticks[t]? = some now) {key handle : String} {rest : List String}
    (hphase : now.phase = .pausing key handle rest) : v.CanEnd t tick answers := by
  -- Each call that ends leaves fewer keys to come to.
  induction hlength : rest.length using Nat.strongRecOn
    generalizing v now key handle rest with
  | _ n ih =>
      subst hlength
      obtain ⟨e, next, now', hstep, hleaves, hfound', hsource', hstopped, hphase'⟩ :=
        exists_step answers hfound hphase
      rw [isStopped_congr hsource, isStopped_congr hsource] at hstopped
      have hsignal : ∀ {later}, ¬FindsSignal t tick later → ¬v.isStopped tick →
          ¬FindsSignal t tick (⟨v, e, next⟩ :: later) := by
        rintro later hlater hquiet ⟨s, hs, hadvances, hfinds⟩
        rcases List.mem_cons.mp hs with rfl | hs
        · exact hquiet hfinds
        · exact hlater ⟨s, hs, hadvances, hfinds⟩
      rcases hphase' with hdone | ⟨key', handle', later, hpausing, hless⟩
      · refine ⟨[e], next, now', by simp [Run.after?, hstep], ?_, hfound', hdone, ?_⟩
        · simpa [Run.trail, hstep] using hleaves
        · rw [Run.trail_cons hstep]
          refine hsignal ?_
          rintro ⟨s, hs, -⟩
          cases hs
      · obtain ⟨more, w, last, hrun, hall, hlast, hdone, hquiet⟩ :=
          ih later.length hless (hsource'.trans hsource) hfound' hpausing rfl
        refine ⟨e :: more, w, last, ?_, ?_, hlast, hdone, ?_⟩
        · simp [Run.after?, hstep, hrun]
        · rw [Run.trail_cons hstep]
          exact List.forall_mem_cons.mpr ⟨hleaves, hall⟩
        · intro h
          rw [Run.trail_cons hstep]
          exact hsignal (hquiet (hstopped ▸ h)) h

/-! ## The account -/

/-- What a tick has done that began with the keys in that order when the upkeep was `u`: the
handled keys have had their turn, and no other key has noticed. -/
structure Account (u : Upkeep) (t : TickId) (tick : Tick) (answers : String → Acknowledgement)
    (keys handled : List String) (ts : List (Run.Transition Upkeep Event)) (v : Upkeep)
    (now : Tick) : Prop where
  idle : keys.Perm (u.manager.idleKeys tick.idleTimeout) ∧ keys.Nodup
  turns : handled <+: keys
  found : v.ticks[t]? = some now
  phase : now.phase = .done ∨ ∃ key handle rest,
    now.phase = .pausing key handle rest ∧ keys = handled ++ key :: rest
  /-- Only a tick that is told to stop ends before all keys have had their turn. -/
  ends : now.phase = .done → handled = keys ∨ FindsSignal t tick ts
  /-- One pause call for each key that has had its turn, or whose turn it is, and that has a
  machine. -/
  calls : Upkeep.calls t ts =
    u.manager.pauseCalls (handled ++ now.call?.toList.map Prod.fst)
  records : ∀ key, v.manager.records.find? key =
    if key ∈ handled ∧ u.manager.fate answers key = .paused then
      (u.manager.records.find? key).map fun r => { r with state := .paused }
    else u.manager.records.find? key
  stats : now.stats = u.manager.tally answers keys.length handled
  total : now.stats.paused + now.stats.failed + now.stats.skipped = handled.length
  /-- The next tick finds the keys whose machines have not been paused. -/
  again : ∀ key ∈ keys, key ∈ v.manager.idleKeys tick.idleTimeout ↔
    ¬(key ∈ handled ∧ u.manager.fate answers key = .paused)

theorem Progress.records (hprogress : u.Progress t tick answers keys handled ts v now)
    (hrunning : ∀ key ∈ handled, u.manager.state? key = some .running) (key : String) :
    v.manager.records.find? key =
      if key ∈ handled ∧ u.manager.fate answers key = .paused then
        (u.manager.records.find? key).map fun r => { r with state := .paused }
      else u.manager.records.find? key := by
  rw [hprogress.manager]
  show (u.manager.pauseAll answers handled).records.find? key = _
  rw [Manager.pauseAll, Manager.find?_foldl]
  simp only [List.mem_filter, decide_eq_true_eq]
  split
  next hpaused =>
    obtain ⟨r, hr, hstate⟩ := Manager.state?_eq_some_iff.mp (hrunning key hpaused.1)
    rw [hr, Option.map_some, Option.map_some, Record.markPaused_of_running hstate]
  next => rfl

theorem Progress.account (hprogress : u.Progress t tick answers keys handled ts v now)
    (hidle : keys.Perm (u.manager.idleKeys tick.idleTimeout)) :
    u.Account t tick answers keys handled ts v now := by
  have hturns : handled <+: keys := by
    cases hprogress.stands with
    | pausing _ hkeys | ended _ hkeys => exact ⟨_, hkeys.symm⟩
  have hfound : ∀ key ∈ keys, ∃ r, u.manager.records.find? key = some r ∧ r.state = .running ∧
      tick.idleTimeout.nanos < u.manager.now - r.lastActivity :=
    fun key hkey => Manager.mem_idleKeys.mp (hidle.mem_iff.mp hkey)
  have hrecords := hprogress.records fun key hkey => by
    obtain ⟨r, hr, hstate, -⟩ := hfound key (hturns.subset hkey)
    exact Manager.state?_eq_some_iff.mpr ⟨r, hr, hstate⟩
  constructor
  case idle => exact ⟨hidle, hidle.nodup_iff.mpr (Manager.nodup_idleKeys _ _)⟩
  case turns => exact hturns
  case found => exact hprogress.found
  case phase =>
    cases hprogress.stands with
    | pausing hphase hkeys => exact .inr ⟨_, _, _, hphase, hkeys⟩
    | ended hphase => exact .inl hphase
  case ends =>
    intro hdone
    cases hprogress.stands with
    | pausing hphase => cases hdone.symm.trans hphase
    | ended _ hkeys _ hend => exact hend.imp_left fun hrest => by simp [hkeys, hrest]
  case calls =>
    cases hprogress.stands with
    | pausing hphase _ _ hcalls => simpa [Tick.call?, hphase] using hcalls
    | ended hphase _ hcalls => simpa [Tick.call?, hphase] using hcalls
  case records => exact hrecords
  case stats => exact hprogress.stats
  case total =>
    rw [hprogress.stats]
    exact Manager.total_tally u.manager answers keys.length handled
  case again =>
    intro key hkey
    obtain ⟨r, hr, hstate, hlong⟩ := hfound key hkey
    rw [Manager.mem_idleKeys, hrecords, hr]
    split
    next hpaused => exact iff_of_false (by simp) (not_not_intro hpaused)
    next hpaused =>
      refine iff_of_true ⟨r, rfl, hstate, Nat.lt_of_lt_of_le hlong ?_⟩ hpaused
      exact Nat.sub_le_sub_right hprogress.clock _

theorem Progress.canEnd (hprogress : u.Progress t tick answers keys handled ts v now) :
    v.CanEnd t tick answers := by
  cases hprogress.stands with
  | pausing hphase =>
      exact canEnd_of_pausing answers hprogress.source hprogress.found hphase
  | ended hphase =>
      refine ⟨[], v, now, rfl, ?_, hprogress.found, hphase, ?_⟩
      · exact fun s hs => by cases hs
      · exact fun _ ⟨s, hs, _⟩ => by cases hs

theorem Progress.same_of_perm {keys' : List String} {ts' : List (Run.Transition Upkeep Event)}
    {v' : Upkeep} {now' : Tick} (hperm : keys.Perm keys')
    (hprogress : u.Progress t tick answers keys keys ts v now)
    (hprogress' : u.Progress t tick answers keys' keys' ts' v' now') :
    v'.manager.records = v.manager.records ∧ now'.stats = now.stats := by
  constructor
  · rw [hprogress.manager, hprogress'.manager]
    show (u.manager.pauseAll answers keys').records = (u.manager.pauseAll answers keys).records
    rw [Manager.pauseAll, Manager.pauseAll, Manager.foldl_perm (hperm.filter _)]
  · rw [hprogress.stats, hprogress'.stats, hperm.length_eq, Manager.tally_perm hperm]

/-- Whatever the state, the timeout, the answers of the control plane and the order of the keys:
a tick that has the manager to itself makes one pause call for each idle key with a machine, and
pauses just those whose calls succeed; it can be told to stop at any key.  The keys may come in
any order, and what is left behind when all have had their turn does not depend on it. -/
theorem account_of_run {m : Manager} {earlier es : List Event}
    (hreach : Run.after? step (ofManager m) earlier = some u) (htick : u.ticks[t]? = some tick)
    (hrun : Run.after? step u (.begin t keys :: es) = some v)
    (hleaves : ∀ s ∈ Run.trail step u (.begin t keys :: es), leavesTo t answers s) :
    (∃ handled now,
      u.Account t tick answers keys handled (Run.trail step u (.begin t keys :: es)) v now) ∧
    v.CanEnd t tick answers ∧
    (∀ keys' : List String, keys'.Perm keys → ∃ next, u.step (.begin t keys') = some next) ∧
    ∀ keys' es' v' now now', Run.after? step u (.begin t keys' :: es') = some v' →
      (∀ s ∈ Run.trail step u (.begin t keys' :: es'), leavesTo t answers s) →
      v.ticks[t]? = some now → v'.ticks[t]? = some now' →
      now.phase = .done → now'.phase = .done →
      ¬FindsSignal t tick (Run.trail step u (.begin t keys :: es)) →
      ¬FindsSignal t tick (Run.trail step u (.begin t keys' :: es')) →
      v'.manager.records = v.manager.records ∧ now'.stats = now.stats := by
  have hu := fresh_of_run hreach
  obtain ⟨hidle, handled, now, hprogress⟩ := progress_of_run hu htick hrun hleaves
  obtain ⟨next, hstep, -⟩ := Option.bind_eq_some_iff.mp hrun
  refine ⟨⟨handled, now, hprogress.account hidle⟩, hprogress.canEnd,
    fun keys' => begin_of_perm hstep, ?_⟩
  intro keys' es' v' last last' hrun' hleaves' hfound hfound' hdone hdone' hquiet hquiet'
  obtain ⟨hidle', handled', now', hprogress'⟩ := progress_of_run hu htick hrun' hleaves'
  obtain rfl := Option.some.inj (hprogress.found.symm.trans hfound)
  obtain rfl := Option.some.inj (hprogress'.found.symm.trans hfound')
  obtain rfl := ((hprogress.account hidle).ends hdone).resolve_right hquiet
  obtain rfl := ((hprogress'.account hidle').ends hdone').resolve_right hquiet'
  exact hprogress.same_of_perm (hidle.trans hidle'.symm) hprogress'

/-- Of three idle keys one has no machine. -/
def threeIdle : List Event :=
  [.manager (.lookup 1 "alpha"),
    .manager (.described 1 (.ok [⟨"vm-1", "10.0.0.5", "Running", ["alpha"]⟩])),
    .manager (.lookup 2 "beta"),
    .manager (.described 2 (.ok [⟨"vm-2", "10.0.0.6", "Running", ["beta"]⟩])),
    .manager (.lookup 3 "gamma"),
    .manager (.described 3 (.ok [⟨"", "10.0.0.7", "Running", ["gamma"]⟩])),
    .install ⟨.ofSeconds 10, .ofSeconds 15⟩, .manager (.elapse (.ofSeconds 20)), .tick]

/-- One machine cannot be paused. -/
def stubborn (handle : String) : Acknowledgement :=
  if handle = "vm-2" then .failed (.remote "busy") else .done

theorem account_of_run_threeIdle :
    ∃ u v tick handled now, Run.after? step (ofManager (.start Manager.defaultResumeDeadline))
        threeIdle = some u ∧
      u.ticks[0]? = some tick ∧
      u.Account 0 tick stubborn ["beta", "gamma", "alpha"] handled
        (Run.trail step u [.begin 0 ["beta", "gamma", "alpha"],
          .paused 0 (.failed (.remote "busy")), .paused 0 .done]) v now ∧
      now.stats = ⟨3, 1, 1, 1⟩ ∧ v.manager.idleKeys tick.idleTimeout = ["beta", "gamma"] := by
  obtain ⟨u, v, tick, now, hreach, htick, hrun, hleaves, hfound, hstats, hidle⟩ :
      ∃ u v tick now, Run.after? step (ofManager (.start Manager.defaultResumeDeadline))
          threeIdle = some u ∧
        u.ticks[0]? = some tick ∧
        Run.after? step u [.begin 0 ["beta", "gamma", "alpha"],
          .paused 0 (.failed (.remote "busy")), .paused 0 .done] = some v ∧
        (∀ s ∈ Run.trail step u [.begin 0 ["beta", "gamma", "alpha"],
          .paused 0 (.failed (.remote "busy")), .paused 0 .done], leavesTo 0 stubborn s) ∧
        v.ticks[0]? = some now ∧ now.stats = ⟨3, 1, 1, 1⟩ ∧
        v.manager.idleKeys tick.idleTimeout = ["beta", "gamma"] :=
    ⟨_, _, _, _, rfl, rfl, rfl, by decide, rfl, rfl, rfl⟩
  obtain ⟨⟨handled, now', haccount⟩, -⟩ := account_of_run hreach htick hrun hleaves
  obtain rfl := Option.some.inj (haccount.found.symm.trans hfound)
  exact ⟨u, v, tick, handled, now', hreach, htick, haccount, hstats, hidle⟩

end Upkeep

end WakeRouter
