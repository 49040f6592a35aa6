import WakeRouter.Proofs.ControlPlane.Fleet
import WakeRouter.Proofs.Watcher.Exclusion

/-!
# Which machines run, and which records say so

A machine runs once its resume call has succeeded, though its record is told a little later.
`Manager.InStep` says that the records and the fleet agree up to that, and the lemmas after it
say what the answers of the fleet do to the agreement.
-/

namespace WakeRouter

theorem Lifecycle.ofStatus_eq_running_iff {status : RemoteStatus} :
    ofStatus status = .running ↔ status = .running := by
  cases status <;> simp [ofStatus]

namespace Manager

/-- Whether the machine of the record runs as far as the manager can tell: the record says so,
or will say so when the end of its wake is delivered. -/
def isUp (m : Manager) (r : Record) : Bool :=
  r.state = .running || (r.wake?.bind m.wakes.find?).any fun wake => wake.stage = .resumed .done

variable {m next : Manager}

/-! ## Records whose machines run -/

theorem isUp_congr {r r' : Record} (hstate : r'.state = r.state) (hwake : r'.wake? = r.wake?)
    (hwakes : ∀ e, r.wake? = some e → next.wakes.find? e = m.wakes.find? e) :
    next.isUp r' = m.isUp r := by
  unfold isUp
  rw [hstate, hwake]
  cases hheld : r.wake? with
  | none => rfl
  | some e => rw [Option.bind_some, Option.bind_some, hwakes e hheld]

theorem isUp_of_free {r : Record} (hfree : r.wake? = none) :
    m.isUp r = decide (r.state = .running) := by
  simp [isUp, hfree]

theorem WakesHeld.isUp_of_wake (hm : m.WakesHeld) {e : Episode} {wake : Wake}
    (hwake : m.wakes.find? e = some wake) (hstage : wake.stage ≠ .delivered) {r : Record}
    (hr : m.records.find? wake.key = some r) :
    m.isUp r = decide (wake.stage = .resumed .done) := by
  obtain ⟨held, hheld, he⟩ := hm.undelivered hwake hstage
  rw [hr, Option.some.injEq] at hheld
  subst hheld
  have hwaking : r.state = .waking := (hm.waking_iff hr).mpr (by simp [he])
  simp [isUp, he, hwake, hwaking]

theorem WakesHeld.wake?_ne (hm : m.WakesHeld) {e : Episode} {wake : Wake}
    (hwake : m.wakes.find? e = some wake) {key : String} {r : Record}
    (hr : m.records.find? key = some r) (hkey : key ≠ wake.key) : r.wake? ≠ some e := by
  intro he
  obtain ⟨held, hheld, hsame, _⟩ := hm.held hr he
  rw [hwake, Option.some.injEq] at hheld
  exact hkey (hheld ▸ hsame.symm)

theorem WakesHeld.isUp_setStage (hm : m.WakesHeld) {e : Episode} {wake : Wake}
    {stage : WakeStage} (hwake : m.wakes.find? e = some wake) (hbefore : wake.stage ≠ .delivered)
    (hafter : stage ≠ .delivered) {key : String} {r : Record}
    (hr : m.records.find? key = some r) :
    (m.setStage e stage).isUp r =
      if key = wake.key then decide (stage = .resumed .done) else m.isUp r := by
  split
  next hkey =>
    subst hkey
    have hwake' : (m.setStage e stage).wakes.find? e = some { wake with stage := stage } := by
      rw [find?_wakes_setStage, if_pos rfl, hwake, Option.map_some]
    exact (hm.setStage hwake hbefore hafter).isUp_of_wake hwake' hafter hr
  next hkey =>
    apply isUp_congr rfl rfl
    intro e' he'
    have hne : e' ≠ e := by
      rintro rfl
      exact hm.wake?_ne hwake hr hkey he'
    rw [find?_wakes_setStage, if_neg hne]

/-! ## Events that leave the machines alone -/

/-- Events at which no record comes and no machine begins or ceases to run. -/
def Event.isQuiet : Event → Bool
  | .described .. | .resumed .. | .markPaused _ => false
  | _ => true

/-- The record has not changed in what matters to the fleet. -/
structure SamePower (m next : Manager) (r r' : Record) : Prop where
  handle_eq : r'.handle = r.handle
  known : r'.state ≠ .notFound → r.state ≠ .notFound
  isUp_eq : next.isUp r' = m.isUp r

theorem samePower_of_wakes {r : Record} (hwakes : next.wakes = m.wakes) : SamePower m next r r :=
  ⟨rfl, id, isUp_congr rfl rfl fun _ _ => by rw [hwakes]⟩

theorem WakesHeld.samePower_setStage (hm : m.WakesHeld) {e : Episode} {wake : Wake}
    {stage : WakeStage} (hwake : m.wakes.find? e = some wake) (hbefore : wake.stage ≠ .delivered)
    (hafter : stage ≠ .delivered) (hdown : wake.stage ≠ .resumed .done)
    (hdown' : stage ≠ .resumed .done) {key : String} {r : Record}
    (hr : m.records.find? key = some r) : SamePower m (m.setStage e stage) r r := by
  refine ⟨rfl, id, ?_⟩
  rw [hm.isUp_setStage hwake hbefore hafter hr]
  split
  next hkey =>
    subst hkey
    simp [hm.isUp_of_wake hwake hbefore hr, hdown, hdown']
  next => rfl

theorem Consistent.samePower_begin (hm : m.Consistent) {c : CallerId} {caller : Caller}
    {r : Record} (hwants : m.WantsWake c caller r) (hwake : r.wake? = none) (phase : CallerPhase)
    {key : String} {r' : Record}
    (hr' : ((m.beginWake c caller.key r).setPhase c phase).records.find? key = some r') :
    ∃ old, m.records.find? key = some old ∧
      SamePower m ((m.beginWake c caller.key r).setPhase c phase) old r' := by
  have hfresh : m.wakes.find? c = none :=
    hm.callers.wakes_eq_none hwants.caller_eq fun hpast => hpast.2 hwants.phase_eq
  rw [records_setPhase, find?_records_beginWake] at hr'
  split at hr'
  next hkey =>
    subst hkey
    rw [hwants.record_eq, Option.map_some, Option.some.injEq] at hr'
    subst hr'
    -- The record was asleep, and the resume call of its wake is still to begin.
    refine ⟨r, hwants.record_eq, rfl, fun _ => hwants.known, ?_⟩
    rw [isUp_of_free hwake]
    simp [isUp, Record.beginWake, find?_wakes_beginWake hfresh, hwants.asleep]
  next =>
    -- The name of the new wake is fresh, so no other record holds a wake of that name.
    refine ⟨r', hr', rfl, id, isUp_congr rfl rfl fun e he => ?_⟩
    obtain ⟨wake, hheld, _⟩ := hm.wakes.held hr' he
    have hne : e ≠ c := by
      rintro rfl
      rw [hfresh] at hheld
      cases hheld
    rw [wakes_setPhase, find?_wakes_beginWake hfresh, if_neg hne]

theorem WakesHeld.samePower_ends (hm : m.WakesHeld) {e : Episode} {wake : Wake}
    {result : Acknowledgement} {r : Record} (hwake : m.wakes.find? e = some wake)
    (hstage : wake.stage = .resumed result) (hends : m.Ends e wake result r next) {key : String}
    {r' : Record} (hr' : next.records.find? key = some r') :
    ∃ old, m.records.find? key = some old ∧ SamePower m next old r' := by
  rw [hends.records_eq] at hr'
  split at hr'
  next hkey =>
    subst hkey
    rw [Option.some.injEq] at hr'
    subst hr'
    refine ⟨r, hends.record_eq, by simp, by simp [hends.waking], ?_⟩
    rw [isUp_of_free (by simp), hm.isUp_of_wake hwake (by simp [hstage]) hends.record_eq, hstage]
    cases result <;> simp [Record.endWake]
  next hkey =>
    refine ⟨r', hr', rfl, id, isUp_congr rfl rfl fun e' he' => ?_⟩
    have hne : e' ≠ e := by
      rintro rfl
      exact hm.wake?_ne hwake hr' hkey he'
    rw [hends.wakes_eq, if_neg hne]

theorem samePower_touch {touched key : String} {r' : Record}
    (hr' : (m.touch touched).records.find? key = some r') :
    ∃ old, m.records.find? key = some old ∧ SamePower m (m.touch touched) old r' := by
  rw [touch, find?_records_modify] at hr'
  split at hr'
  · obtain ⟨old, hold, rfl⟩ := Option.map_eq_some_iff.mp hr'
    exact ⟨old, hold, rfl, id, isUp_congr rfl rfl fun _ _ => rfl⟩
  · exact ⟨r', hr', samePower_of_wakes rfl⟩

theorem Consistent.samePower_of_quiet (hm : m.Consistent) {e : Event} (hquiet : e.isQuiet)
    (hstep : m.step e = some next) {key : String} {r' : Record}
    (hr' : next.records.find? key = some r') :
    ∃ r, m.records.find? key = some r ∧ SamePower m next r r' := by
  cases move_of_step hstep with
  | described | resumed | markPaused => cases hquiet
  | begin hwants _ hwake => exact hm.samePower_begin hwants hwake _ hr'
  | resume hwake hstage | overrun hwake hstage | brokeDown hwake hstage =>
      exact ⟨r', hr', hm.wakes.samePower_setStage hwake (by simp [hstage]) (by simp)
        (by simp [hstage]) (by simp) hr'⟩
  | deliver hwake hstage =>
      obtain ⟨r, hends⟩ := hm.wakes.ends hwake hstage
      exact hm.wakes.samePower_ends hwake hstage hends hr'
  | touch => exact samePower_touch hr'
  | elapse | lookup | ensure | undescribed | refuse | direct | join | hear | wait | cancel
  | leave => exact ⟨r', hr', samePower_of_wakes rfl⟩

/-! ## Records in step with a fleet -/

/-- The fleet has the machine of the record, which runs just if the manager takes it to. -/
def MatchesFleet (m : Manager) (f : Fleet) (r : Record) : Prop :=
  ∃ status, f.statusOf? r.handle = some status ∧ (status = .running ↔ m.isUp r)

/-- Records and fleet agree, but for the ends of resume calls that are still to be delivered. -/
def InStep (m : Manager) (f : Fleet) : Prop :=
  ∀ key r, m.records.find? key = some r → r.state ≠ .notFound → m.MatchesFleet f r

/-- Each machine is the instance of one key at most. -/
def Unshared (m : Manager) : Prop :=
  ∀ entry ∈ m.records.entries, ∀ entry' ∈ m.records.entries, entry.2.state ≠ .notFound →
    entry'.2.state ≠ .notFound → entry.2.handle = entry'.2.handle → entry.1 = entry'.1

instance (m : Manager) : Decidable m.Unshared :=
  inferInstanceAs (Decidable (∀ entry ∈ m.records.entries, ∀ entry' ∈ m.records.entries, _))

variable {f f' : Fleet}

theorem MatchesFleet.samePower {r r' : Record} (hmatches : m.MatchesFleet f r)
    (hsame : SamePower m next r r') (hstatus : f'.statusOf? r.handle = f.statusOf? r.handle) :
    next.MatchesFleet f' r' := by
  obtain ⟨status, hknown, hup⟩ := hmatches
  exact ⟨status, by rw [hsame.handle_eq, hstatus, hknown], by rw [hsame.isUp_eq, hup]⟩

theorem InStep.quiet (hf : m.InStep f) (hm : m.Consistent) {e : Event} (hquiet : e.isQuiet)
    (hstep : m.step e = some next) : next.InStep f := by
  intro key r' hr' hknown
  obtain ⟨r, hr, hsame⟩ := hm.samePower_of_quiet hquiet hstep hr'
  exact (hf key r hr (hsame.known hknown)).samePower hsame rfl

theorem InStep.change (hf : m.InStep f) (change : Fleet.Change) : m.InStep (f.change change) := by
  intro key r hr hknown
  obtain ⟨status, hstatus, hup⟩ := hf key r hr hknown
  exact ⟨status, Fleet.statusOf?_change change hstatus, hup⟩

theorem matchesFleet_ofNodes (hapart : (f.nodes.map Node.hostname).Nodup) {key : String}
    {nodes : List Node} (hdescribe : f.describe key = .ok nodes)
    (hknown : (Record.ofNodes nodes m.now).state ≠ .notFound) (next : Manager) :
    next.MatchesFleet f (.ofNodes nodes m.now) := by
  cases nodes with
  | nil => exact absurd rfl hknown
  | cons node rest =>
      have hstatus := Fleet.statusOf?_of_describe hapart hdescribe List.mem_cons_self
      refine ⟨node.remoteStatus, hstatus, ?_⟩
      rw [isUp_of_free (Record.ofNodes_wake _ _)]
      simp [Record.ofNodes, Record.ofNode, Lifecycle.ofStatus_eq_running_iff]

theorem InStep.described (hf : m.InStep f) (hapart : (f.nodes.map Node.hostname).Nodup)
    {c : CallerId} {caller : Caller} (hcaller : m.callers.find? c = some caller)
    (hstep : m.step (.described c (f.describe caller.key)) = some next) : next.InStep f := by
  generalize hanswer : f.describe caller.key = answer at hstep
  cases move_of_step hstep with
  | undescribed => exact hf
  | described hcaller' _ =>
      rw [hcaller, Option.some.injEq] at hcaller'
      subst hcaller'
      intro key r hr hknown
      rw [records_setPhase, find?_records_discover] at hr
      split at hr
      next hkey =>
        subst hkey
        cases hrecord : m.records.find? caller.key with
        | none =>
            rw [hrecord, Option.getD_none, Option.some.injEq] at hr
            subst hr
            exact matchesFleet_ofNodes hapart hanswer hknown _
        | some old =>
            rw [hrecord, Option.getD_some, Option.some.injEq] at hr
            subst hr
            exact (hf caller.key old hrecord hknown).samePower (samePower_of_wakes rfl) rfl
      next => exact (hf key r hr hknown).samePower (samePower_of_wakes rfl) rfl

theorem Unshared.handle_ne (hm : m.Unshared) {key key' : String} {r r' : Record}
    (hr : m.records.find? key = some r) (hr' : m.records.find? key' = some r')
    (hknown : r.state ≠ .notFound) (hknown' : r'.state ≠ .notFound) (hne : key' ≠ key) :
    r'.handle ≠ r.handle := by
  intro hsame
  exact hne (hm (key', r') (Table.mem_entries_iff.mpr hr') (key, r) (Table.mem_entries_iff.mpr hr)
    hknown' hknown hsame)

theorem InStep.resumed (hf : m.InStep f) (hm : m.WakesHeld) (hunshared : m.Unshared)
    {e : Episode} {wake : Wake} (hwake : m.wakes.find? e = some wake) {since : Instant}
    (hstage : wake.stage = .resuming since) {result : Acknowledgement}
    (hself : ∀ status, f.statusOf? wake.handle = some status → status ≠ .running →
      ∃ status', f'.statusOf? wake.handle = some status' ∧ (status' = .running ↔ result = .done))
    (hothers : ∀ name, name ≠ wake.handle → f'.statusOf? name = f.statusOf? name) :
    (m.setStage e (.resumed result)).InStep f' := by
  have hbefore : wake.stage ≠ .delivered := by simp [hstage]
  obtain ⟨held, hheld, he⟩ := hm.undelivered hwake hbefore
  have hheldKnown : held.state ≠ .notFound := by
    rw [(hm.waking_iff hheld).mpr (by simp [he])]
    simp
  have hhandle : wake.handle = held.handle := by
    obtain ⟨r, hr, hhandle, _⟩ := hm.target hwake
    rw [hheld, Option.some.injEq] at hr
    exact hr ▸ hhandle
  intro key r hr hknown
  rw [records_setStage] at hr
  have hup : (m.setStage e (.resumed result)).isUp r = _ :=
    hm.isUp_setStage hwake hbefore (by simp) hr
  obtain ⟨status, hstatus, hrunning⟩ := hf key r hr hknown
  by_cases hkey : key = wake.key
  · -- The call was under way, so the machine was down until now.
    subst hkey
    rw [hheld, Option.some.injEq] at hr
    subst hr
    rw [hm.isUp_of_wake hwake hbefore hheld, hstage] at hrunning
    rw [if_pos rfl] at hup
    rw [← hhandle] at hstatus
    obtain ⟨status', hstatus', hdone⟩ := hself status hstatus (by simpa using hrunning)
    exact ⟨status', hhandle ▸ hstatus', by rw [hdone, hup]; simp⟩
  · -- No other key has the machine, so the fleet has not changed for this one.
    have hne := hunshared.handle_ne hheld hr hheldKnown hknown hkey
    rw [if_neg hkey] at hup
    exact ⟨status, by rw [hothers _ (hhandle ▸ hne), hstatus], by rw [hup, hrunning]⟩

theorem InStep.paused (hf : m.InStep f) (hm : m.WakesHeld) (hunshared : m.Unshared)
    {key : String} {r : Record} (hr : m.records.find? key = some r) (hstate : r.state = .running)
    (hself : f'.statusOf? r.handle = some .paused)
    (hothers : ∀ name, name ≠ r.handle → f'.statusOf? name = f.statusOf? name) :
    (m.markPaused key).InStep f' := by
  intro key' r' hr' hknown
  rw [markPaused, find?_records_modify] at hr'
  split at hr'
  next hkey =>
    subst hkey
    rw [hr, Option.map_some, Option.some.injEq] at hr'
    subst hr'
    have hpaused : r.markPaused = { r with state := .paused } := by
      simp [Record.markPaused, hstate]
    have hfree : r.wake? = none := by
      simpa [hstate] using hm.waking_iff hr
    rw [hpaused]
    exact ⟨.paused, hself, by simp [isUp, hfree]⟩
  next hkey =>
    have hne := hunshared.handle_ne hr hr' (by simp [hstate]) hknown hkey
    exact (hf key' r' hr' hknown).samePower (samePower_of_wakes rfl) (hothers _ hne)

end Manager

end WakeRouter
