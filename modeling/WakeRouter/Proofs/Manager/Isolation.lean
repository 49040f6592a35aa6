import WakeRouter.Proofs.Manager.NoOrphans

/-!
# Keys are isolated

Leave out of a run whatever is about other keys.  What remains is a run, and it leads to
`Manager.only`: to all that the manager knows about the key, and to nothing else.  So the
records of a manager are those of as many managers as there are keys, one for each of them.

The answers of the control plane come with the events, and an event that stays keeps its answer.
-/

namespace WakeRouter

/-! ## Parts of tables -/

namespace Table

variable {κ α : Type} [DecidableEq κ]

/-- The entries that have the property, in the order in which they came. -/
def filter (t : Table κ α) (p : κ → α → Bool) : Table κ α where
  entries := t.entries.filter fun entry => p entry.1 entry.2
  nodup := t.nodup.sublist (List.Sublist.map Prod.fst List.filter_sublist)

variable {t : Table κ α} {p : κ → α → Bool}

theorem find?_filter (t : Table κ α) (p : κ → α → Bool) (key : κ) :
    (t.filter p).find? key = (t.find? key).filter (p key) := by
  apply Option.ext
  intro a
  rw [← mem_entries_iff, Option.filter_eq_some_iff, ← mem_entries_iff]
  exact List.mem_filter

theorem filter_modify {f : α → α} (hkept : ∀ key a, p key (f a) = p key a) (key : κ) :
    (t.modify key f).filter p = (t.filter p).modify key f := by
  have hentry : ∀ entry : κ × α,
      p entry.1 (if entry.1 = key then f entry.2 else entry.2) = p entry.1 entry.2 := by
    intro entry
    split
    · exact hkept entry.1 entry.2
    · rfl
  apply eq_of_entries
  simp [filter, entries_modify, List.filter_map, Function.comp_def, hentry]

theorem filter_addNew {key : κ} (hfresh : t.find? key = none) (a : α) :
    (t.addNew key a).filter p = if p key a then (t.filter p).addNew key a else t.filter p := by
  have hfresh' : (t.filter p).find? key = none := by
    rw [find?_filter, hfresh, Option.filter_none]
  apply eq_of_entries
  by_cases h : p key a
  · rw [if_pos h, entries_addNew_of_none hfresh']
    simp [filter, entries_addNew_of_none hfresh, h]
  · rw [if_neg h]
    simp [filter, entries_addNew_of_none hfresh, h]

end Table

namespace Manager

/-! ## One key -/

/-- What the manager knows about the key. -/
def only (key : String) (m : Manager) : Manager :=
  { m with
    records := m.records.filter fun k _ => k = key
    wakes := m.wakes.filter fun _ wake => wake.key = key
    callers := m.callers.filter fun _ caller => caller.key = key }

/-- The key that an event is about.  Time passes for all of them. -/
def keyOf? (m : Manager) : Event → Option String
  | .elapse _ => none
  | .lookup _ key | .ensure _ key _ _ | .touch key | .markPaused key => some key
  | .described c _ | .engage c | .poll c | .cancel c | .leave c =>
    (m.callers.find? c).map Caller.key
  | .resume e | .resumed e _ | .overrun e | .brokeDown e _ | .deliver e =>
    (m.wakes.find? e).map Wake.key

variable {m next : Manager} {key : String}

theorem find?_records_only (m : Manager) (key k : String) :
    (m.only key).records.find? k = if k = key then m.records.find? k else none := by
  have hfilter := m.records.find?_filter (fun k _ => k = key) k
  refine hfilter.trans ?_
  cases m.records.find? k <;> by_cases h : k = key <;> simp [h]

theorem find?_wakes_only (m : Manager) (key : String) (e : Episode) :
    (m.only key).wakes.find? e = (m.wakes.find? e).filter fun wake => wake.key = key :=
  Table.find?_filter _ _ e

theorem find?_callers_only (m : Manager) (key : String) (c : CallerId) :
    (m.only key).callers.find? c = (m.callers.find? c).filter fun caller => caller.key = key :=
  Table.find?_filter _ _ c

theorem find?_records_only_self (m : Manager) (key : String) :
    (m.only key).records.find? key = m.records.find? key := by
  rw [find?_records_only, if_pos rfl]

theorem find?_records_only_of_ne {k : String} (hne : k ≠ key) :
    (m.only key).records.find? k = none := by
  rw [find?_records_only, if_neg hne]

theorem find?_callers_only_of_some {c : CallerId} {caller : Caller}
    (hcaller : m.callers.find? c = some caller) :
    (m.only caller.key).callers.find? c = some caller := by
  simp [find?_callers_only, hcaller]

theorem find?_wakes_only_of_some {e : Episode} {wake : Wake}
    (hwake : m.wakes.find? e = some wake) : (m.only wake.key).wakes.find? e = some wake := by
  simp [find?_wakes_only, hwake]

theorem find?_callers_only_of_ne {c : CallerId} {caller : Caller}
    (hcaller : m.callers.find? c = some caller) (hne : caller.key ≠ key) :
    (m.only key).callers.find? c = none := by
  simp [find?_callers_only, hcaller, hne]

theorem find?_wakes_only_of_ne {e : Episode} {wake : Wake}
    (hwake : m.wakes.find? e = some wake) (hne : wake.key ≠ key) :
    (m.only key).wakes.find? e = none := by
  simp [find?_wakes_only, hwake, hne]

theorem keyOf?_caller {c : CallerId} {caller : Caller} (hcaller : m.callers.find? c = some caller)
    (hkey : (m.callers.find? c).map Caller.key = some key) : caller.key = key := by
  rw [hcaller, Option.map_some, Option.some.injEq] at hkey
  exact hkey

theorem keyOf?_wake {e : Episode} {wake : Wake} (hwake : m.wakes.find? e = some wake)
    (hkey : (m.wakes.find? e).map Wake.key = some key) : wake.key = key := by
  rw [hwake, Option.map_some, Option.some.injEq] at hkey
  exact hkey

/-! ## Operations -/

theorem only_withCallers (t : Table CallerId Caller) :
    ({ m with callers := t } : Manager).only key =
      { m.only key with callers := t.filter fun _ caller => caller.key = key } := rfl

theorem only_withWakes (t : Table Episode Wake) :
    ({ m with wakes := t } : Manager).only key =
      { m.only key with wakes := t.filter fun _ wake => wake.key = key } := rfl

theorem only_withRecords (t : Records) :
    ({ m with records := t } : Manager).only key =
      { m.only key with records := t.filter fun k _ => k = key } := rfl

theorem only_setPhase (c : CallerId) (phase : CallerPhase) :
    (m.setPhase c phase).only key = (m.only key).setPhase c phase := by
  rw [setPhase, only_withCallers, Table.filter_modify]
  · rfl
  · intro _ _
    rfl

theorem only_cancel (c : CallerId) :
    ({ m with callers := m.callers.modify c fun caller => { caller with cancelled := true } } :
      Manager).only key =
      { m.only key with
        callers := (m.only key).callers.modify c fun caller =>
          { caller with cancelled := true } } := by
  rw [only_withCallers, Table.filter_modify]
  · rfl
  · intro _ _
    rfl

theorem only_setStage (e : Episode) (stage : WakeStage) :
    (m.setStage e stage).only key = (m.only key).setStage e stage := by
  rw [setStage, only_withWakes, Table.filter_modify]
  · rfl
  · intro _ _
    rfl

theorem only_publish (e : Episode) (outcome : WakeOutcome) :
    (m.publish e outcome).only key = (m.only key).publish e outcome := by
  rw [publish, only_withWakes, Table.filter_modify]
  · rfl
  · intro _ _
    rfl

theorem only_modify (k : String) (f : Record → Record) :
    (m.modify k f).only key = (m.only key).modify k f := by
  rw [modify, only_withRecords, Table.filter_modify]
  · rfl
  · intro _ _
    rfl

/-! Changes to what is not there change nothing. -/

theorem setPhase_of_none {c : CallerId} (hnone : m.callers.find? c = none) (phase : CallerPhase) :
    m.setPhase c phase = m := by
  unfold setPhase
  rw [Table.modify_of_none hnone]

theorem setStage_of_none {e : Episode} (hnone : m.wakes.find? e = none) (stage : WakeStage) :
    m.setStage e stage = m := by
  unfold setStage
  rw [Table.modify_of_none hnone]

theorem publish_of_none {e : Episode} (hnone : m.wakes.find? e = none) (outcome : WakeOutcome) :
    m.publish e outcome = m := by
  unfold publish
  rw [Table.modify_of_none hnone]

theorem modify_of_none {k : String} (hnone : m.records.find? k = none) (f : Record → Record) :
    m.modify k f = m := by
  unfold modify
  rw [Table.modify_of_none hnone]

theorem reception_only (m : Manager) (key : String) (purpose : Purpose) :
    (m.only key).reception key purpose = m.reception key purpose := by
  unfold reception
  rw [find?_records_only, if_pos rfl]
  rfl

theorem only_arrive {c : CallerId} (hfresh : m.callers.find? c = none) (k : String)
    (purpose : Purpose) (cancelled : Bool) :
    (m.arrive c k purpose cancelled).only key =
      if k = key then (m.only key).arrive c k purpose cancelled else m.only key := by
  rw [arrive, only_withCallers, Table.filter_addNew hfresh]
  by_cases h : k = key
  · subst h
    rw [if_pos rfl, if_pos (decide_eq_true rfl), arrive, reception_only]
    rfl
  · rw [if_neg h, if_neg (by simp [h])]
    rfl

theorem filter_records_addNew (k : String) (r : Record) :
    (m.records.addNew k r).filter (fun k _ => k = key) =
      if k = key then (m.only key).records.addNew k r else (m.only key).records := by
  cases hrecord : m.records.find? k with
  | none =>
      rw [Table.filter_addNew hrecord]
      simp only [decide_eq_true_eq]
      rfl
  | some old =>
      have hshown := find?_records_only m key k
      rw [Table.addNew_of_some hrecord]
      split
      next h =>
        rw [if_pos h, hrecord] at hshown
        rw [Table.addNew_of_some hshown]
        rfl
      next => rfl

theorem only_discover (k : String) (nodes : List Node) :
    (m.discover k nodes).only key =
      if k = key then (m.only key).discover k nodes else m.only key := by
  rw [discover, only_withRecords, filter_records_addNew]
  by_cases h : k = key
  · rw [if_pos h, if_pos h]
    rfl
  · rw [if_neg h, if_neg h]

theorem only_beginWake {c : CallerId} (hfresh : m.wakes.find? c = none) (k : String) (r : Record) :
    (m.beginWake c k r).only key =
      if k = key then (m.only key).beginWake c k r else m.only key := by
  have hbegin : m.beginWake c k r =
      { m.modify k (Record.beginWake c) with
        wakes := m.wakes.addNew c ⟨k, r.handle, .spawned, none⟩ } := rfl
  rw [hbegin, only_withWakes, only_modify, Table.filter_addNew hfresh]
  by_cases h : k = key
  · rw [if_pos h, if_pos (decide_eq_true h)]
    rfl
  · rw [if_neg h, if_neg (by simp [h]), modify_of_none (find?_records_only_of_ne h)]
    rfl

/-! ## Events -/

theorem outcome?_only {e : Episode} {wake : Wake} (hwake : m.wakes.find? e = some wake) :
    (m.only wake.key).outcome? e = m.outcome? e := by
  rw [outcome?, outcome?, find?_wakes_only_of_some hwake, hwake]

/-- Only the record of its key can hold a wake. -/
theorem WakesHeld.isHeld_only (hm : m.WakesHeld) {e : Episode} {wake : Wake}
    (hwake : m.wakes.find? e = some wake) : (m.only wake.key).isHeld e = m.isHeld e := by
  rw [Bool.eq_iff_iff, isHeld_iff, isHeld_iff]
  constructor
  · rintro ⟨k, r, hr, he⟩
    rw [find?_records_only] at hr
    split at hr
    · exact ⟨k, r, hr, he⟩
    · cases hr
  · rintro ⟨k, r, hr, he⟩
    obtain ⟨wake', hwake', hkey, _⟩ := hm.held hr he
    rw [hwake, Option.some.injEq] at hwake'
    subst hwake'
    exact ⟨k, r, by rw [find?_records_only, if_pos hkey.symm, hr], he⟩

theorem Consistent.verdict?_only (hm : m.Consistent) {c : CallerId} {caller : Caller} {w : Wait}
    (hcaller : m.callers.find? c = some caller) (hphase : caller.phase = .waiting w) :
    (m.only caller.key).verdict? caller w = m.verdict? caller w := by
  obtain ⟨wake, hwake, hkey⟩ := hm.callers.awaited hcaller hphase
  rw [← hkey]
  unfold verdict?
  rw [outcome?_only hwake, hm.wakes.isHeld_only hwake]
  rfl

theorem WantsWake.only {c : CallerId} {caller : Caller} {r : Record}
    (hwants : m.WantsWake c caller r) : (m.only caller.key).WantsWake c caller r where
  caller_eq := find?_callers_only_of_some hwants.caller_eq
  phase_eq := hwants.phase_eq
  record_eq := (find?_records_only_self m caller.key).trans hwants.record_eq
  asleep := hwants.asleep
  known := hwants.known

theorem only_finish (result : Acknowledgement) :
    (m.finish key result).only key = (m.only key).finish key result := by
  unfold finish
  rw [find?_records_only_self]
  cases m.records.find? key with
  | none => rfl
  | some r =>
      simp only
      split
      · rw [only_publish, only_modify]
      · rfl

theorem fresh_only {c : CallerId} (hfresh : m.callers.find? c = none) :
    (m.only key).callers.find? c = none := by
  rw [find?_callers_only, hfresh, Option.filter_none]

/-- What happens to the key happens in the same way when there are no other keys. -/
theorem Consistent.move_only (hm : m.Consistent) {e : Event} (hmove : m.Move e next)
    (hkey : m.keyOf? e = some key) : (m.only key).Move e (next.only key) := by
  have hrecord := find?_records_only_self m
  cases hmove with
  | elapse => cases hkey
  | lookup hfresh =>
      cases hkey
      rw [only_arrive hfresh, if_pos rfl]
      exact .lookup (fresh_only hfresh)
  | ensure hfresh =>
      cases hkey
      rw [only_arrive hfresh, if_pos rfl]
      exact .ensure (fresh_only hfresh)
  | undescribed hcaller hphase =>
      obtain rfl := keyOf?_caller hcaller hkey
      rw [only_setPhase]
      exact .undescribed (find?_callers_only_of_some hcaller) hphase
  | described hcaller hphase =>
      obtain rfl := keyOf?_caller hcaller hkey
      rw [only_setPhase, ← reception_only, only_discover, if_pos rfl]
      exact .described (find?_callers_only_of_some hcaller) hphase
  | refuse hcaller hphase hpurpose hnone =>
      obtain rfl := keyOf?_caller hcaller hkey
      rw [only_setPhase]
      rw [← hrecord] at hnone
      exact .refuse (find?_callers_only_of_some hcaller) hphase hpurpose hnone
  | direct hcaller hphase hpurpose hfound hstate =>
      obtain rfl := keyOf?_caller hcaller hkey
      rw [only_setPhase]
      rw [← hrecord] at hfound
      exact .direct (find?_callers_only_of_some hcaller) hphase hpurpose hfound hstate
  | join hwants hpurpose hwake =>
      obtain rfl := keyOf?_caller hwants.caller_eq hkey
      rw [only_setPhase]
      exact .join hwants.only hpurpose hwake
  | begin hwants hpurpose hwake =>
      obtain rfl := keyOf?_caller hwants.caller_eq hkey
      have hfresh := hm.callers.wakes_eq_none hwants.caller_eq fun hpast => hpast.2 hwants.phase_eq
      rw [only_setPhase, only_beginWake hfresh, if_pos rfl]
      exact .begin hwants.only hpurpose hwake
  | hear hcaller hphase hverdict =>
      obtain rfl := keyOf?_caller hcaller hkey
      rw [only_setPhase]
      rw [← hm.verdict?_only hcaller hphase] at hverdict
      exact .hear (find?_callers_only_of_some hcaller) hphase hverdict
  | wait hcaller hphase hverdict =>
      obtain rfl := keyOf?_caller hcaller hkey
      rw [← hm.verdict?_only hcaller hphase] at hverdict
      exact .wait (find?_callers_only_of_some hcaller) hphase hverdict
  | cancel hcaller hpending =>
      obtain rfl := keyOf?_caller hcaller hkey
      rw [only_cancel]
      exact .cancel (find?_callers_only_of_some hcaller) hpending
  | leave hcaller hpending =>
      obtain rfl := keyOf?_caller hcaller hkey
      rw [only_setPhase]
      exact .leave (find?_callers_only_of_some hcaller) hpending
  | resume hwake hstage =>
      obtain rfl := keyOf?_wake hwake hkey
      rw [only_setStage]
      exact .resume (find?_wakes_only_of_some hwake) hstage
  | resumed hwake hstage =>
      obtain rfl := keyOf?_wake hwake hkey
      rw [only_setStage]
      exact .resumed (find?_wakes_only_of_some hwake) hstage
  | overrun hwake hstage hlate =>
      obtain rfl := keyOf?_wake hwake hkey
      rw [only_setStage]
      exact .overrun (find?_wakes_only_of_some hwake) hstage hlate
  | brokeDown hwake hstage =>
      obtain rfl := keyOf?_wake hwake hkey
      rw [only_setStage]
      exact .brokeDown (find?_wakes_only_of_some hwake) hstage
  | deliver hwake hstage =>
      obtain rfl := keyOf?_wake hwake hkey
      rw [only_finish, only_setStage]
      exact .deliver (find?_wakes_only_of_some hwake) hstage
  | touch =>
      cases hkey
      rw [only_modify]
      exact .touch key
  | markPaused =>
      cases hkey
      rw [only_modify]
      exact .markPaused key

/-- What happens to another key does not show. -/
theorem Consistent.only_eq (hm : m.Consistent) {e : Event} (hmove : m.Move e next)
    {other : String} (hother : m.keyOf? e = some other) (hne : other ≠ key) :
    next.only key = m.only key := by
  cases hmove with
  | elapse => cases hother
  | lookup hfresh | ensure hfresh =>
      cases hother
      rw [only_arrive hfresh, if_neg hne]
  | undescribed hcaller | refuse hcaller | direct hcaller | hear hcaller | leave hcaller =>
      obtain rfl := keyOf?_caller hcaller hother
      rw [only_setPhase, setPhase_of_none (find?_callers_only_of_ne hcaller hne)]
  | described hcaller =>
      obtain rfl := keyOf?_caller hcaller hother
      rw [only_setPhase, only_discover, if_neg hne,
        setPhase_of_none (find?_callers_only_of_ne hcaller hne)]
  | join hwants =>
      obtain rfl := keyOf?_caller hwants.caller_eq hother
      rw [only_setPhase, setPhase_of_none (find?_callers_only_of_ne hwants.caller_eq hne)]
  | begin hwants =>
      obtain rfl := keyOf?_caller hwants.caller_eq hother
      have hfresh := hm.callers.wakes_eq_none hwants.caller_eq fun hpast => hpast.2 hwants.phase_eq
      rw [only_setPhase, only_beginWake hfresh, if_neg hne,
        setPhase_of_none (find?_callers_only_of_ne hwants.caller_eq hne)]
  | wait => rfl
  | cancel hcaller =>
      obtain rfl := keyOf?_caller hcaller hother
      rw [only_cancel, Table.modify_of_none (find?_callers_only_of_ne hcaller hne)]
  | resume hwake | resumed hwake | overrun hwake | brokeDown hwake =>
      obtain rfl := keyOf?_wake hwake hother
      rw [only_setStage, setStage_of_none (find?_wakes_only_of_ne hwake hne)]
  | deliver hwake hstage =>
      obtain rfl := keyOf?_wake hwake hother
      obtain ⟨r, _, _, _, hfinish⟩ := hm.wakes.finish_eq hwake hstage
      have hnone := find?_wakes_only_of_ne hwake hne
      rw [hfinish, only_publish, only_modify, only_setStage, setStage_of_none hnone,
        modify_of_none (find?_records_only_of_ne hne), publish_of_none hnone]
  | touch | markPaused =>
      cases hother
      rw [only_modify, modify_of_none (find?_records_only_of_ne hne)]

theorem eq_elapse_of_keyOf? {e : Event} (hmove : m.Move e next) (hnone : m.keyOf? e = none) :
    ∃ d, e = .elapse d ∧ next = { m with now := m.now + d.nanos } := by
  cases hmove with
  | elapse d => exact ⟨d, rfl, rfl⟩
  | lookup | ensure | touch | markPaused => cases hnone
  | undescribed hcaller | described hcaller | refuse hcaller | direct hcaller | hear hcaller
  | wait hcaller | cancel hcaller | leave hcaller => simp [keyOf?, hcaller] at hnone
  | join hwants | begin hwants => simp [keyOf?, hwants.caller_eq] at hnone
  | resume hwake | resumed hwake | overrun hwake | brokeDown hwake | deliver hwake =>
      simp [keyOf?, hwake] at hnone

/-! ## Runs -/

/-- The step is about the key, or time passes in it. -/
def Transition.concerns (key : String) (t : Transition) : Bool :=
  (t.before.keyOf? t.event).all fun k => k = key

def Transition.only (key : String) (t : Transition) : Transition :=
  ⟨t.before.only key, t.event, t.after.only key⟩

/-- The events of a run, less those that are about other keys. -/
def eventsOf (key : String) (ts : List Transition) : List Event :=
  (ts.filter (Transition.concerns key)).map Run.Transition.event

/-- The record of the key after each step that concerns it. -/
def recordsOf (key : String) (ts : List Transition) : List (Option Record) :=
  (ts.filter (Transition.concerns key)).map fun t => t.after.records.find? key

/-- The calls that begin in steps that concern the key. -/
def callsOf (key : String) (ts : List Transition) : List Call :=
  (ts.filter (Transition.concerns key)).filterMap fun t => t.before.call? t.event

theorem Consistent.step_only (hm : m.Consistent) {e : Event} (hstep : m.step e = some next)
    (hconcerns : Transition.concerns key ⟨m, e, next⟩) :
    (m.only key).step e = some (next.only key) := by
  have hmove := move_of_step hstep
  unfold Transition.concerns at hconcerns
  cases hkey : m.keyOf? e with
  | none =>
      obtain ⟨d, rfl, rfl⟩ := eq_elapse_of_keyOf? hmove hkey
      rfl
  | some k =>
      obtain rfl : k = key := by simpa [hkey] using hconcerns
      exact (hm.move_only hmove hkey).step_eq

theorem Consistent.only_of_step (hm : m.Consistent) {e : Event} (hstep : m.step e = some next)
    (hother : Transition.concerns key ⟨m, e, next⟩ = false) : next.only key = m.only key := by
  unfold Transition.concerns at hother
  cases hkey : m.keyOf? e with
  | none => simp [hkey] at hother
  | some k =>
      have hne : k ≠ key := by simpa [hkey] using hother
      exact hm.only_eq (move_of_step hstep) hkey hne

theorem only_start (deadline : Duration) (key : String) :
    (start deadline).only key = start deadline := rfl

theorem Consistent.trail_only (hm : m.Consistent) (key : String) (es : List Event) :
    (m.only key).trail (eventsOf key (m.trail es)) =
      ((m.trail es).filter (Transition.concerns key)).map (Transition.only key) := by
  induction es generalizing m with
  | nil => rfl
  | cons e es ih =>
      cases hstep : m.step e with
      | none => simp [Run.trail, hstep, eventsOf]
      | some next =>
          have hrest := ih (hm.step hstep)
          have htrail : m.trail (e :: es) = ⟨m, e, next⟩ :: next.trail es := Run.trail_cons hstep es
          rw [htrail]
          unfold eventsOf at hrest ⊢
          by_cases hconcerns : Transition.concerns key ⟨m, e, next⟩
          · rw [List.filter_cons_of_pos hconcerns, List.map_cons, List.map_cons, ← hrest]
            exact Run.trail_cons (hm.step_only hstep hconcerns) _
          · have hsame := hm.only_of_step hstep (Bool.eq_false_iff.mpr hconcerns)
            rw [List.filter_cons_of_neg hconcerns, ← hsame, hrest]

theorem Consistent.run_only (hm : m.Consistent) (key : String) {es : List Event} {last : Manager}
    (hrun : m.run es = some last) :
    (m.only key).run (eventsOf key (m.trail es)) = some (last.only key) := by
  induction es generalizing m with
  | nil =>
      obtain rfl := Option.some.inj hrun
      rfl
  | cons e es ih =>
      obtain ⟨next, hstep, hlater⟩ := Option.bind_eq_some_iff.mp hrun
      have hrest := ih (hm.step hstep) hlater
      have htrail : m.trail (e :: es) = ⟨m, e, next⟩ :: next.trail es := Run.trail_cons hstep es
      rw [htrail]
      unfold eventsOf at hrest ⊢
      by_cases hconcerns : Transition.concerns key ⟨m, e, next⟩
      · rw [List.filter_cons_of_pos hconcerns, List.map_cons, ← hrest]
        exact Run.after?_cons (hm.step_only hstep hconcerns) _
      · have hsame := hm.only_of_step hstep (Bool.eq_false_iff.mpr hconcerns)
        rw [List.filter_cons_of_neg hconcerns, ← hsame, hrest]

theorem call?_only {t : Transition} (hconcerns : t.concerns key) :
    (t.before.only key).call? t.event = t.before.call? t.event := by
  obtain ⟨before, e, after⟩ := t
  unfold Transition.concerns at hconcerns
  cases e with
  | lookup c k | ensure c k =>
      obtain rfl : k = key := by simpa [keyOf?] using hconcerns
      simp only [call?, find?_records_only_self]
  | resume e =>
      cases hwake : before.wakes.find? e with
      | none => simp [call?, find?_wakes_only, hwake]
      | some wake =>
          obtain rfl : wake.key = key := by simpa [keyOf?, hwake] using hconcerns
          simp only [call?, find?_wakes_only_of_some hwake, hwake]
  | elapse | described | engage | poll | cancel | leave | resumed | overrun | brokeDown | deliver
  | touch | markPaused => rfl

theorem Consistent.calls_only (hm : m.Consistent) (key : String) (es : List Event) :
    (m.only key).calls (eventsOf key (m.trail es)) = callsOf key (m.trail es) := by
  unfold calls callsOf
  rw [hm.trail_only, List.filterMap_map, List.filterMap_filter, List.filterMap_filter]
  congr 1
  funext t
  split
  next hconcerns => exact call?_only hconcerns
  next => rfl

/-- A step that is about other keys leaves the record of the key as it is. -/
theorem Consistent.find?_of_other (hm : m.Consistent) {e : Event} (hstep : m.step e = some next)
    (hother : m.keyOf? e ≠ some key) : next.records.find? key = m.records.find? key := by
  cases hkey : m.keyOf? e with
  | none =>
      obtain ⟨d, _, rfl⟩ := eq_elapse_of_keyOf? (move_of_step hstep) hkey
      rfl
  | some k =>
      have hne : k ≠ key := fun hsame => hother (hsame ▸ hkey)
      rw [← find?_records_only_self, hm.only_eq (move_of_step hstep) hkey hne,
        find?_records_only_self]

/-- Take a run and a key, and leave out of the run all steps that are about other keys.  What
remains, with the answers that the control plane gave, is a run; it leads through the same
records of the key, begins the same calls for it, and ends with all that the manager knows
about the key and nothing else, so that every caller for the key has been told the same.  And
no step that is about another key, or about none, touches the record of the key. -/
theorem key_isolation {deadline : Duration} {es : List Event}
    (hrun : (start deadline).run es = some m) (key : String) :
    (start deadline).run (eventsOf key ((start deadline).trail es)) = some (m.only key) ∧
    ((start deadline).trail (eventsOf key ((start deadline).trail es))).map
        (fun t => t.after.records.find? key) = recordsOf key ((start deadline).trail es) ∧
    (start deadline).calls (eventsOf key ((start deadline).trail es)) =
      callsOf key ((start deadline).trail es) ∧
    (m.only key).records.find? key = m.records.find? key ∧
    (∀ c, (m.only key).callers.find? c =
      (m.callers.find? c).filter fun caller => caller.key = key) ∧
    (∀ e next, m.step e = some next → m.keyOf? e ≠ some key →
      next.records.find? key = m.records.find? key) := by
  have hstart := consistent_start deadline
  have htrail := hstart.trail_only key es
  refine ⟨hstart.run_only key hrun, ?_, hstart.calls_only key es, find?_records_only_self m key,
    find?_callers_only m key, ?_⟩
  · rw [only_start] at htrail
    simp [recordsOf, htrail, Transition.only, find?_records_only_self, Function.comp_def]
  · intro e next hstep hother
    exact (consistent_of_run hrun).find?_of_other hstep hother

/-- While the machine of one key is slow to resume, another key is looked up, woken and used. -/
def slowNeighbour : List Event :=
  [.ensure 1 "alpha" (.ofSeconds 5) false,
    .described 1 (.ok [⟨"vm-1", "10.0.0.5", "paused", ["alpha"]⟩]), .engage 1, .resume 1,
    .ensure 2 "beta" (.ofSeconds 5) false, .elapse (.ofSeconds 1),
    .described 2 (.ok [⟨"vm-2", "10.0.0.6", "paused", ["beta"]⟩]), .engage 2, .resume 2,
    .resumed 2 .done, .deliver 2, .poll 2, .touch "beta", .elapse (.ofSeconds 4), .poll 1]

theorem key_isolation_slowNeighbour :
    ∃ m m', (start defaultResumeDeadline).run slowNeighbour = some m ∧
      (start defaultResumeDeadline).run
        [.ensure 2 "beta" (.ofSeconds 5) false, .elapse (.ofSeconds 1),
          .described 2 (.ok [⟨"vm-2", "10.0.0.6", "paused", ["beta"]⟩]), .engage 2, .resume 2,
          .resumed 2 .done, .deliver 2, .poll 2, .touch "beta", .elapse (.ofSeconds 4)] = some m' ∧
      m'.records.find? "beta" = m.records.find? "beta" ∧
      m'.callers.find? 2 = m.callers.find? 2 ∧ m'.callers.find? 1 = none := by
  obtain ⟨m, hrun⟩ : ∃ m, (start defaultResumeDeadline).run slowNeighbour = some m := ⟨_, rfl⟩
  obtain ⟨hbeta, _, _, hrecord, hcallers, _⟩ := key_isolation hrun "beta"
  refine ⟨m, m.only "beta", hrun, hbeta, hrecord, ?_, ?_⟩
  · rw [hcallers]
    cases hrun
    rfl
  · rw [hcallers]
    cases hrun
    rfl

end Manager

end WakeRouter
