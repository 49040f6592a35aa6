import WakeRouter.Proofs.Manager.Wakes

/-!
# How records change

`Manager.RecordChange` lists what one event can do to the record of one key.  A record
once made stays; its handle and its address stay as they are, and its state follows the
edges of `Lifecycle.mayTurn`.
-/

namespace WakeRouter

namespace Lifecycle

/-- Whether a record of the first state may be found in the second one event later. -/
def mayTurn : Lifecycle → Lifecycle → Bool
  | .unknown, .waking | .paused, .waking => true
  | .waking, .running | .waking, .paused => true
  | .running, .paused | .unknown, .paused => true
  | _, _ => false

end Lifecycle

namespace Manager

/-- How the resume call ended whose end the event delivers to the record of the key. -/
def ending? (m : Manager) (key : String) : Event → Option Acknowledgement
  | .deliver e =>
    (m.wakes.find? e).bind fun wake =>
      match wake.stage with
      | .resumed result => if wake.key = key then some result else none
      | _ => none
  | _ => none

/-- What an event can do to the record of a key. -/
inductive RecordChange (m : Manager) (key : String) : Event → Option Record → Option Record → Prop
  | kept {e : Event} (hending : m.ending? key e = none) (r? : Option Record) :
      RecordChange m key e r? r?
  | discovered {c : CallerId} {caller : Caller} (nodes : List Node)
      (hcaller : m.callers.find? c = some caller) (hkey : caller.key = key) :
      RecordChange m key (.described c (.ok nodes)) none (some (.ofNodes nodes m.now))
  | begun {r : Record} (c : CallerId) (hstate : r.state = .unknown ∨ r.state = .paused) :
      RecordChange m key (.engage c) (some r) (some (r.beginWake c))
  | ended {e : Episode} {r : Record} {result : Acknowledgement}
      (hending : m.ending? key (.deliver e) = some result) (hstate : r.state = .waking)
      (hwake : r.wake? = some e) :
      RecordChange m key (.deliver e) (some r) (some (r.endWake result))
  | touched (r : Record) : RecordChange m key (.touch key) (some r) (some (r.touch m.now))
  | paused (r : Record) : RecordChange m key (.markPaused key) (some r) (some r.markPaused)

variable {m next : Manager}

theorem state?_eq_some_iff {key : String} {state : Lifecycle} :
    m.state? key = some state ↔ ∃ r, m.records.find? key = some r ∧ r.state = state :=
  Option.map_eq_some_iff

theorem recordChange_discover {key : String} {c : CallerId} {caller : Caller} (nodes : List Node)
    (hcaller : m.callers.find? c = some caller) :
    m.RecordChange key (.described c (.ok nodes)) (m.records.find? key)
      ((m.discover caller.key nodes).records.find? key) := by
  rw [find?_records_discover]
  split
  next hkey =>
    subst hkey
    cases hrecord : m.records.find? caller.key with
    | none => exact .discovered nodes hcaller rfl
    | some r => exact .kept rfl _
  next => exact .kept rfl _

theorem WantsWake.state {c : CallerId} {caller : Caller} {r : Record}
    (hwants : m.WantsWake c caller r) (hm : m.WakesHeld) (hwake : r.wake? = none) :
    r.state = .unknown ∨ r.state = .paused := by
  have hwaking := hm.waking_iff hwants.record_eq
  have hasleep := hwants.asleep
  have hknown := hwants.known
  cases hstate : r.state <;> simp_all

theorem recordChange_beginWake {key : String} {c : CallerId} {caller : Caller} {r : Record}
    (hm : m.WakesHeld) (hwants : m.WantsWake c caller r) (hwake : r.wake? = none) :
    m.RecordChange key (.engage c) (m.records.find? key)
      ((m.beginWake c caller.key r).records.find? key) := by
  rw [find?_records_beginWake]
  split
  next hkey =>
    subst hkey
    rw [hwants.record_eq]
    exact .begun c (hwants.state hm hwake)
  next => exact .kept rfl _

theorem recordChange_deliver {key : String} {e : Episode} {wake : Wake}
    {result : Acknowledgement} {r : Record} (hwake : m.wakes.find? e = some wake)
    (hstage : wake.stage = .resumed result) (hends : m.Ends e wake result r next) :
    m.RecordChange key (.deliver e) (m.records.find? key) (next.records.find? key) := by
  rw [hends.records_eq]
  split
  next hkey =>
    rw [hkey, hends.record_eq]
    refine .ended ?_ hends.waking hends.holds
    simp [ending?, hwake, hstage]
  next hkey =>
    refine .kept ?_ _
    simp [ending?, hwake, hstage, Ne.symm hkey]

/-- A change of the record under one key, seen from another. -/
theorem recordChange_modify {key changed : String} {e : Event} {f : Record → Record}
    (hending : m.ending? key e = none)
    (hchange : ∀ r, key = changed → m.RecordChange key e (some r) (some (f r))) :
    m.RecordChange key e (m.records.find? key) ((m.modify changed f).records.find? key) := by
  rw [find?_records_modify]
  split
  next hkey =>
    cases m.records.find? key with
    | none => exact .kept hending none
    | some r => exact hchange r hkey
  next => exact .kept hending _

theorem recordChange_of_step (hm : m.WakesHeld) {e : Event} (hstep : m.step e = some next)
    (key : String) : m.RecordChange key e (m.records.find? key) (next.records.find? key) := by
  cases move_of_step hstep with
  | described hcaller _ => exact recordChange_discover _ hcaller
  | begin hwants _ hwake => exact recordChange_beginWake hm hwants hwake
  | deliver hwake hstage =>
      obtain ⟨r, hends⟩ := hm.ends hwake hstage
      exact recordChange_deliver hwake hstage hends
  | touch changed =>
      apply recordChange_modify rfl
      rintro r rfl
      exact .touched r
  | markPaused changed =>
      apply recordChange_modify rfl
      rintro r rfl
      exact .paused r
  | elapse | lookup | ensure | undescribed | refuse | direct | join | hear | wait | cancel | leave
  | resume | resumed | overrun | brokeDown => exact .kept rfl _

/-! ## What stays -/

theorem RecordChange.some_of_some {key : String} {e : Event} {r : Record} {r'? : Option Record}
    (hchange : m.RecordChange key e (some r) r'?) :
    ∃ r', r'? = some r' ∧ r'.handle = r.handle ∧ r'.address = r.address ∧
      (r.state = .notFound → r'.state = .notFound) := by
  cases hchange with
  | kept => exact ⟨r, rfl, rfl, rfl, id⟩
  | begun c hstate =>
      refine ⟨_, rfl, rfl, rfl, fun hnot => ?_⟩
      rcases hstate with h | h <;> rw [h] at hnot <;> cases hnot
  | @ended e r result _ hstate _ =>
      refine ⟨_, rfl, by simp, by simp, fun hnot => ?_⟩
      rw [hstate] at hnot
      cases hnot
  | touched => exact ⟨_, rfl, rfl, rfl, id⟩
  | paused =>
      have hkeeps := Record.keepsWake_markPaused
      exact ⟨_, rfl, hkeeps.handle_eq r, hkeeps.address_eq r,
        fun h => by simp [Record.markPaused, h]⟩

theorem RecordChange.mayTurn {key : String} {e : Event} {r r' : Record}
    (hchange : m.RecordChange key e (some r) (some r')) (hne : r.state ≠ r'.state) :
    r.state.mayTurn r'.state := by
  cases hchange with
  | kept => exact absurd rfl hne
  | begun c hstate => rcases hstate with h | h <;> simp [h, Record.beginWake, Lifecycle.mayTurn]
  | @ended e r result _ hstate _ =>
      cases result <;> simp [hstate, Record.endWake, Lifecycle.mayTurn]
  | touched => exact absurd rfl hne
  | paused =>
      revert hne
      unfold Record.markPaused
      cases hstate : r.state <;> simp [hstate, Lifecycle.mayTurn]

theorem find?_of_run {deadline : Duration} {es later : List Event} {last : Manager}
    (hrun : (start deadline).run es = some m) (hlater : m.run later = some last) {key : String}
    {r : Record} (hrecord : m.records.find? key = some r) :
    ∃ r', last.records.find? key = some r' ∧ r'.handle = r.handle ∧ r'.address = r.address ∧
      (r.state = .notFound → r'.state = .notFound) := by
  apply (consistent_of_run hrun).run_induction (P := fun n => ∃ r',
    n.records.find? key = some r' ∧ r'.handle = r.handle ∧ r'.address = r.address ∧
    (r.state = .notFound → r'.state = .notFound)) _ ⟨r, hrecord, rfl, rfl, id⟩ hlater
  rintro m e next hm ⟨r', hr', hhandle, haddress, hnot⟩ hstep
  have hchange := recordChange_of_step hm.wakes hstep key
  rw [hr'] at hchange
  obtain ⟨r'', hr'', hhandle', haddress', hnot'⟩ := hchange.some_of_some
  exact ⟨r'', hr'', hhandle'.trans hhandle, haddress'.trans haddress, fun h => hnot' (hnot h)⟩

/-! ## What callers are shown -/

/-- The record that a caller was shown is that of its key. -/
def SnapshotsTrue (m : Manager) : Prop :=
  ∀ c caller s, m.callers.find? c = some caller → caller.phase = .answered (.record s) →
    s.key = caller.key ∧
      ∃ r, m.records.find? caller.key = some r ∧ s.handle = r.handle ∧ s.address = r.address

theorem verdict?_ne_record (m : Manager) (caller : Caller) (w : Wait) (s : Snapshot) :
    m.verdict? caller w ≠ some (.record s) := by
  unfold verdict?
  split
  next outcome _ => cases outcome <;> simp [WakeOutcome.answer]
  next =>
    split
    · simp
    split
    · simp
    split <;> simp

theorem reception_snapshot {key : String} {purpose : Purpose} {s : Snapshot}
    (hphase : m.reception key purpose = .answered (.record s)) :
    s.key = key ∧
      ∃ r, m.records.find? key = some r ∧ s.handle = r.handle ∧ s.address = r.address := by
  unfold reception at hphase
  cases hrecord : m.records.find? key with
  | none => simp [hrecord] at hphase
  | some r =>
      cases purpose with
      | ensure timeout => simp [hrecord] at hphase
      | lookup =>
          simp only [hrecord, CallerPhase.answered.injEq, Answer.record.injEq] at hphase
          subst s
          exact ⟨rfl, r, rfl, rfl, rfl⟩

theorem SnapshotsTrue.ofRecords (hm : m.SnapshotsTrue) (hcallers : next.callers = m.callers)
    (hrecords : ∀ key r, m.records.find? key = some r →
      ∃ r', next.records.find? key = some r' ∧ r'.handle = r.handle ∧ r'.address = r.address) :
    next.SnapshotsTrue := by
  intro c caller s hcaller hphase
  rw [hcallers] at hcaller
  obtain ⟨hkey, r, hr, hhandle, haddress⟩ := hm c caller s hcaller hphase
  obtain ⟨r', hr', hhandle', haddress'⟩ := hrecords _ r hr
  exact ⟨hkey, r', hr', hhandle.trans hhandle'.symm, haddress.trans haddress'.symm⟩

theorem SnapshotsTrue.setPhase (hm : m.SnapshotsTrue) {c : CallerId} {phase : CallerPhase}
    (hphase : ∀ caller s, m.callers.find? c = some caller → phase = .answered (.record s) →
      s.key = caller.key ∧
        ∃ r, m.records.find? caller.key = some r ∧ s.handle = r.handle ∧ s.address = r.address) :
    (m.setPhase c phase).SnapshotsTrue := by
  intro c' caller s hcaller hshown
  rw [find?_callers_setPhase] at hcaller
  split at hcaller
  next hc =>
    subst hc
    obtain ⟨old, hold, rfl⟩ := Option.map_eq_some_iff.mp hcaller
    obtain ⟨hkey, htrue⟩ := hphase old s hold hshown
    exact ⟨hkey, htrue⟩
  next => exact hm c' caller s hcaller hshown

theorem SnapshotsTrue.arrive (hm : m.SnapshotsTrue) {c : CallerId}
    (hfresh : m.callers.find? c = none) (key : String) (purpose : Purpose) (cancelled : Bool) :
    (m.arrive c key purpose cancelled).SnapshotsTrue := by
  intro c' caller s hcaller hshown
  rw [find?_callers_arrive hfresh] at hcaller
  split at hcaller
  · cases hcaller
    exact reception_snapshot hshown
  · exact hm c' caller s hcaller hshown

theorem snapshotsTrue_step (hm : m.WakesHeld) (htrue : m.SnapshotsTrue) {e : Event}
    (hstep : m.step e = some next) : next.SnapshotsTrue := by
  have hrecords : ∀ key r, m.records.find? key = some r →
      ∃ r', next.records.find? key = some r' ∧ r'.handle = r.handle ∧ r'.address = r.address := by
    intro key r hrecord
    have hchange := recordChange_of_step hm hstep key
    rw [hrecord] at hchange
    obtain ⟨r', hr', hhandle, haddress, _⟩ := hchange.some_of_some
    exact ⟨r', hr', hhandle, haddress⟩
  cases move_of_step hstep with
  | lookup hfresh | ensure hfresh => exact htrue.arrive hfresh _ _ _
  | @described c caller nodes hcaller _ =>
      have hdiscover : (m.discover caller.key nodes).SnapshotsTrue := htrue.ofRecords rfl hrecords
      apply hdiscover.setPhase
      intro caller' s hcaller' hphase
      rw [callers_discover, hcaller, Option.some.injEq] at hcaller'
      subst caller'
      exact reception_snapshot hphase
  | @begin c caller r =>
      have hbegin : (m.beginWake c caller.key r).SnapshotsTrue := htrue.ofRecords rfl hrecords
      apply hbegin.setPhase
      rintro _ _ _ ⟨⟩
  | @hear c caller w a hcaller hphase hverdict =>
      apply htrue.setPhase
      rintro _ s _ ⟨⟩
      exact absurd hverdict (verdict?_ne_record m caller w s)
  | undescribed | refuse | direct | join | leave =>
      apply htrue.setPhase
      rintro _ _ _ ⟨⟩
  | @cancel c =>
      intro c' caller s hcaller hshown
      simp only [Table.find?_modify] at hcaller
      split at hcaller
      · obtain ⟨old, hold, rfl⟩ := Option.map_eq_some_iff.mp hcaller
        obtain ⟨hkey, hrecord⟩ := htrue c' old s hold hshown
        exact ⟨hkey, hrecord⟩
      · exact htrue c' caller s hcaller hshown
  | deliver hwake hstage =>
      obtain ⟨r, hends⟩ := hm.ends hwake hstage
      exact htrue.ofRecords hends.callers_eq hrecords
  | elapse | wait | resume | resumed | overrun | brokeDown | touch | markPaused =>
      exact htrue.ofRecords rfl hrecords

theorem snapshotsTrue_of_run {deadline : Duration} {es : List Event}
    (hrun : (start deadline).run es = some m) : m.SnapshotsTrue := by
  apply (consistent_start deadline).run_induction (P := SnapshotsTrue) _ _ hrun
  · intro m e next hm htrue hstep
    exact snapshotsTrue_step hm.wakes htrue hstep
  · intro c caller s hcaller
    simp [start] at hcaller

/-! ## The evolution of the records -/

/-- The first answer about a key makes its record.  Later ones change nothing, and a lookup
is shown the record either way. -/
theorem find?_of_described {c : CallerId} {caller : Caller} {nodes : List Node}
    (hcaller : m.callers.find? c = some caller)
    (hstep : m.step (.described c (.ok nodes)) = some next) :
    ∃ r, r = (m.records.find? caller.key).getD (.ofNodes nodes m.now) ∧
      next.records.find? caller.key = some r ∧
      (caller.purpose = .lookup → next.callers.find? c =
        some { caller with phase := .answered (.record (r.snapshot m.now caller.key)) }) := by
  cases move_of_step hstep with
  | described hcaller' _ =>
      rw [hcaller, Option.some.injEq] at hcaller'
      subst hcaller'
      have hrecord : (m.discover caller.key nodes).records.find? caller.key =
          some ((m.records.find? caller.key).getD (.ofNodes nodes m.now)) := by
        rw [find?_records_discover, if_pos rfl]
      refine ⟨_, rfl, hrecord, fun hpurpose => ?_⟩
      rw [find?_callers_setPhase, if_pos rfl, callers_discover, hcaller, Option.map_some]
      simp only [reception, hrecord, hpurpose]
      rfl

theorem find?_callers_of_lookup {c : CallerId} {key : String} {r : Record}
    (hrecord : m.records.find? key = some r) (hstep : m.step (.lookup c key) = some next) :
    next.callers.find? c =
      some ⟨key, .lookup, false, .answered (.record (r.snapshot m.now key))⟩ := by
  cases move_of_step hstep with
  | lookup hfresh =>
      rw [find?_callers_arrive hfresh, if_pos rfl]
      simp only [reception, hrecord]

theorem RecordChange.of_none {key : String} {e : Event} {r : Record}
    (hchange : m.RecordChange key e none (some r)) :
    ∃ c caller nodes, e = .described c (.ok nodes) ∧ m.callers.find? c = some caller ∧
      caller.key = key ∧ r = .ofNodes nodes m.now := by
  cases hchange with
  | @discovered c caller nodes hcaller hkey => exact ⟨c, caller, nodes, rfl, hcaller, hkey, rfl⟩

/-- However events interleave, a key has one record at most, made by the first answer about
the key that comes in.  The record stays, and so do its handle and its address, which every
lookup of the key is shown; its state changes along the edges of the lifecycle, and never
when there is no machine. -/
theorem record_evolution {deadline : Duration} {es : List Event}
    (hrun : (start deadline).run es = some m) :
    m.records.keys.Nodup ∧
    (∀ later last key r, m.run later = some last → m.records.find? key = some r →
      ∃ r', last.records.find? key = some r' ∧ r'.handle = r.handle ∧ r'.address = r.address ∧
        (r.state = .notFound → r'.state = .notFound)) ∧
    (∀ e next key r r', m.step e = some next → m.records.find? key = some r →
      next.records.find? key = some r' → r.state ≠ r'.state → r.state.mayTurn r'.state) ∧
    (∀ e next key r, m.step e = some next → m.records.find? key = none →
      next.records.find? key = some r →
      ∃ c caller nodes, e = .described c (.ok nodes) ∧ m.callers.find? c = some caller ∧
        caller.key = key ∧ r = .ofNodes nodes m.now) ∧
    (∀ c caller nodes next, m.callers.find? c = some caller →
      m.step (.described c (.ok nodes)) = some next →
      ∃ r, r = (m.records.find? caller.key).getD (.ofNodes nodes m.now) ∧
        next.records.find? caller.key = some r ∧
        (caller.purpose = .lookup → next.callers.find? c =
          some { caller with phase := .answered (.record (r.snapshot m.now caller.key)) })) ∧
    (∀ c key next r, m.records.find? key = some r → m.step (.lookup c key) = some next →
      next.callers.find? c =
        some ⟨key, .lookup, false, .answered (.record (r.snapshot m.now key))⟩) ∧
    (∀ c caller s, m.callers.find? c = some caller → caller.phase = .answered (.record s) →
      s.key = caller.key ∧
        ∃ r, m.records.find? caller.key = some r ∧ s.handle = r.handle ∧
          s.address = r.address) := by
  have hm := (consistent_of_run hrun).wakes
  refine ⟨m.records.nodup, ?_, ?_, ?_, ?_, ?_, snapshotsTrue_of_run hrun⟩
  · intro later last key r hlater hrecord
    exact find?_of_run hrun hlater hrecord
  · intro e next key r r' hstep hr hr' hne
    have hchange := recordChange_of_step hm hstep key
    rw [hr, hr'] at hchange
    exact hchange.mayTurn hne
  · intro e next key r hstep hnone hr
    have hchange := recordChange_of_step hm hstep key
    rw [hnone, hr] at hchange
    exact hchange.of_none
  · intro c caller nodes next hcaller hstep
    exact find?_of_described hcaller hstep
  · intro c key next r hrecord hstep
    exact find?_callers_of_lookup hrecord hstep

/-- Two callers ask at once and are told of different machines; the machine of the first
answer is then woken, and paused again. -/
def rivalAnswers : List Event :=
  [.lookup 1 "alpha", .ensure 2 "alpha" (.ofSeconds 5) false,
    .described 2 (.ok [⟨"vm-1", "10.0.0.5", "paused", ["alpha"]⟩]),
    .described 1 (.ok [⟨"vm-2", "10.0.0.6", "running", ["alpha"]⟩]),
    .engage 2, .resume 2, .resumed 2 .done, .deliver 2, .markPaused "alpha"]

theorem record_evolution_rivalAnswers :
    ∃ m, (start defaultResumeDeadline).run rivalAnswers = some m ∧ m.records.keys.Nodup ∧
      ∃ caller s r, m.callers.find? 1 = some caller ∧ caller.phase = .answered (.record s) ∧
        m.records.find? caller.key = some r ∧ s.address = r.address ∧
        r.address = "10.0.0.5" ∧ r.state = .paused := by
  obtain ⟨m, hrun⟩ : ∃ m, (start defaultResumeDeadline).run rivalAnswers = some m := ⟨_, rfl⟩
  obtain ⟨hnodup, _, _, _, _, _, hshown⟩ := record_evolution hrun
  cases hrun
  obtain ⟨_, r, hrecord, _, haddress⟩ := hshown 1 _ _ rfl rfl
  refine ⟨_, rfl, hnodup, _, _, r, rfl, rfl, hrecord, haddress, ?_⟩
  cases hrecord
  exact ⟨rfl, rfl⟩

end Manager

end WakeRouter
