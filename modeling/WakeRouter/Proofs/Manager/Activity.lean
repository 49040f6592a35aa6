import WakeRouter.Proofs.Manager.Idleness

/-!
# When a key was last used

`Manager.usedAt?` reads off the steps of a run when a key was last used: when it got its
record, or when it was last touched, whichever is later.  What else happens to the key does
not count, and neither does the state in which a touch finds it.  `exact_idleness` says that
the idle keys are those that run and were last used, in this sense, longer ago than the timeout.
-/

namespace WakeRouter.Manager

variable {m next : Manager} {ts : List Transition} {key : String}

/-! ## Uses of a key -/

/-- The key gets its record in the step. -/
def Transition.inserts (key : String) (t : Transition) : Bool :=
  (t.before.records.find? key).isNone && (t.after.records.find? key).isSome

def Transition.touches (key : String) (t : Transition) : Bool :=
  match t.event with
  | .touch touched => touched = key
  | _ => false

/-- When the key got its record. -/
def insertedAt? (key : String) (ts : List Transition) : Option Instant :=
  (ts.find? (Transition.inserts key)).map fun t => t.before.now

/-- When the key was last touched, whether or not it had a record then. -/
def touchedAt? (key : String) (ts : List Transition) : Option Instant :=
  (ts.reverse.find? (Transition.touches key)).map fun t => t.before.now

def usedAt? (key : String) (ts : List Transition) : Option Instant :=
  (insertedAt? key ts).map fun inserted => (touchedAt? key ts).elim inserted (max inserted)

theorem insertedAt?_concat (t : Transition) :
    insertedAt? key (ts ++ [t]) =
      (insertedAt? key ts).or (if t.inserts key then some t.before.now else none) := by
  unfold insertedAt?
  rw [List.find?_append]
  by_cases h : t.inserts key <;> cases ts.find? (Transition.inserts key) <;> simp [h]

theorem touchedAt?_concat (t : Transition) :
    touchedAt? key (ts ++ [t]) =
      if t.touches key then some t.before.now else touchedAt? key ts := by
  unfold touchedAt?
  rw [List.reverse_append, List.reverse_singleton, List.singleton_append, List.find?_cons]
  by_cases h : t.touches key <;> simp [h]

theorem usedAt?_concat_of_inserts {t : Transition} (hfresh : insertedAt? key ts = none)
    (hinserts : t.inserts key) (hquiet : t.touches key = false)
    (hpast : ∀ touched, touchedAt? key ts = some touched → touched ≤ t.before.now) :
    usedAt? key (ts ++ [t]) = some t.before.now := by
  unfold usedAt?
  rw [insertedAt?_concat, touchedAt?_concat, hfresh, if_pos hinserts, hquiet]
  cases htouched : touchedAt? key ts with
  | none => rfl
  | some touched =>
      have hle := hpast touched htouched
      simp [Nat.max_eq_left hle]

theorem usedAt?_concat_of_touches {t : Transition} {used : Instant}
    (hused : usedAt? key ts = some used) (hpast : used ≤ t.before.now)
    (htouches : t.touches key) : usedAt? key (ts ++ [t]) = some t.before.now := by
  unfold usedAt? at hused ⊢
  obtain ⟨inserted, hinserted, hlater⟩ := Option.map_eq_some_iff.mp hused
  have hle : inserted ≤ used := by
    rw [← hlater]
    cases touchedAt? key ts with
    | none => exact Nat.le_refl inserted
    | some touched => exact Nat.le_max_left inserted touched
  have hnow := Nat.le_trans hle hpast
  rw [insertedAt?_concat, touchedAt?_concat, hinserted, if_pos htouches]
  simp [Nat.max_eq_right hnow]

/-- Before the key has its record, nothing counts as a use of it. -/
theorem usedAt?_concat_of_unknown {t : Transition} (hused : usedAt? key ts = none)
    (hinserts : t.inserts key = false) : usedAt? key (ts ++ [t]) = none := by
  unfold usedAt? at hused ⊢
  rw [Option.map_eq_none_iff] at hused
  simp [insertedAt?_concat, hused, hinserts]

theorem usedAt?_concat_of_neither {t : Transition} (hinserts : t.inserts key = false)
    (htouches : t.touches key = false) : usedAt? key (ts ++ [t]) = usedAt? key ts := by
  unfold usedAt?
  simp [insertedAt?_concat, touchedAt?_concat, hinserts, htouches]

/-! ## Activity and uses -/

/-- Among all that can happen to a record only touches move its activity. -/
theorem RecordChange.lastActivity_eq {e : Event} {r r' : Record}
    (hchange : m.RecordChange key e (some r) (some r')) (hother : e ≠ .touch key) :
    r'.lastActivity = r.lastActivity := by
  cases hchange with
  | kept => rfl
  | begun => rfl
  | ended => exact Record.lastActivity_endWake _ _
  | touched => exact absurd rfl hother
  | paused => exact Record.lastActivity_markPaused r

theorem Transition.touches_eq_false {t : Transition} (hother : t.event ≠ .touch key) :
    t.touches key = false := by
  unfold touches
  split
  next touched hevent =>
    have hne : touched ≠ key := fun hsame => hother (hsame ▸ hevent)
    simp [hne]
  next => rfl

/-- The activity of each record is what the steps so far tell, and none of them lies in the
future. -/
structure UsesKnown (ts : List Transition) (m : Manager) : Prop where
  past : ∀ t ∈ ts, t.before.now ≤ m.now
  used : ∀ key, (m.records.find? key).map Record.lastActivity = usedAt? key ts

theorem UsesKnown.touchedAt?_le (hknown : UsesKnown ts m) {touched : Instant}
    (htouched : touchedAt? key ts = some touched) : touched ≤ m.now := by
  obtain ⟨t, ht, rfl⟩ := Option.map_eq_some_iff.mp htouched
  exact hknown.past t (List.mem_reverse.mp (List.mem_of_find?_eq_some ht))

theorem UsesKnown.step (hm : m.WakesHeld) (hpast : m.ActivityPast) (hknown : UsesKnown ts m)
    {e : Event} (hstep : m.step e = some next) : UsesKnown (ts ++ [⟨m, e, next⟩]) next := by
  have hnow := now_le_of_step hstep
  constructor
  case past =>
    intro t ht
    rcases List.mem_append.mp ht with hold | hnew
    · exact Nat.le_trans (hknown.past t hold) hnow
    · rw [List.mem_singleton.mp hnew]
      exact hnow
  case used =>
    intro key
    have hchange := recordChange_of_step hm hstep key
    have hused := hknown.used key
    cases hbefore : m.records.find? key with
    | none =>
        rw [hbefore] at hchange hused
        cases hafter : next.records.find? key with
        | none =>
            have hquiet : Transition.inserts key ⟨m, e, next⟩ = false := by
              simp [Transition.inserts, hafter]
            exact (usedAt?_concat_of_unknown hused.symm hquiet).symm
        | some r =>
            rw [hafter] at hchange
            obtain ⟨c, caller, nodes, rfl, _, _, rfl⟩ := hchange.of_none
            have hinserts : Transition.inserts key ⟨m, .described c (.ok nodes), next⟩ := by
              simp [Transition.inserts, hbefore, hafter]
            have hfresh : insertedAt? key ts = none := Option.map_eq_none_iff.mp hused.symm
            have hinserted := usedAt?_concat_of_inserts hfresh hinserts rfl
              fun touched htouched => hknown.touchedAt?_le htouched
            rw [hinserted, Option.map_some, Record.lastActivity_ofNodes]
    | some r =>
        rw [hbefore] at hchange hused
        obtain ⟨r', hafter, _⟩ := hchange.some_of_some
        rw [hafter] at hchange ⊢
        have hquiet : Transition.inserts key ⟨m, e, next⟩ = false := by
          simp [Transition.inserts, hbefore]
        rw [Option.map_some] at hused ⊢
        by_cases htouch : e = .touch key
        · subst htouch
          have htouches : Transition.touches key ⟨m, .touch key, next⟩ := by
            simp [Transition.touches]
          rw [usedAt?_concat_of_touches hused.symm (hpast key r hbefore) htouches]
          cases move_of_step hstep with
          | touch =>
              rw [find?_records_modify, if_pos rfl, hbefore, Option.map_some,
                Option.some.injEq] at hafter
              subst hafter
              rfl
        · rw [hchange.lastActivity_eq htouch, hused]
          exact (usedAt?_concat_of_neither hquiet (Transition.touches_eq_false htouch)).symm

theorem usesKnown_of_run {deadline : Duration} {es : List Event}
    (hrun : (start deadline).run es = some m) : UsesKnown ((start deadline).trail es) m := by
  have hstart : (start deadline).ActivityPast ∧ UsesKnown [] (start deadline) := by
    refine ⟨?_, ?_, ?_⟩
    · intro key r hr
      simp [start] at hr
    · simp
    · intro key
      simp [start, usedAt?, insertedAt?]
  have hboth := (consistent_start deadline).trail_induction
    (P := fun ts n => n.ActivityPast ∧ UsesKnown ts n)
    (fun hm h hstep => ⟨h.1.step hm.wakes hstep, h.2.step hm.wakes h.1 hstep⟩) hstart hrun
  exact hboth.2

/-- The key has been in use no longer ago than at the instant, which is past. -/
def UsedSince (m : Manager) (key : String) (i : Instant) : Prop :=
  i ≤ m.now ∧ ∃ r, m.records.find? key = some r ∧ i ≤ r.lastActivity

theorem usedSince_touch {r : Record} (hr : m.records.find? key = some r) :
    (m.touch key).UsedSince key m.now := by
  refine ⟨Nat.le_refl m.now, r.touch m.now, ?_, Nat.le_refl m.now⟩
  rw [touch, find?_records_modify, if_pos rfl, hr, Option.map_some]

theorem UsedSince.step (hm : m.WakesHeld) {i : Instant} (hused : m.UsedSince key i) {e : Event}
    (hstep : m.step e = some next) : next.UsedSince key i := by
  obtain ⟨hnow, r, hr, hi⟩ := hused
  have hchange := recordChange_of_step hm hstep key
  rw [hr] at hchange
  obtain ⟨r', hr', _⟩ := hchange.some_of_some
  refine ⟨Nat.le_trans hnow (now_le_of_step hstep), r', hr', ?_⟩
  by_cases htouch : e = .touch key
  · subst htouch
    cases move_of_step hstep with
    | touch =>
        rw [find?_records_modify, if_pos rfl, hr, Option.map_some, Option.some.injEq] at hr'
        subst hr'
        exact hnow
  · rw [hr'] at hchange
    rw [hchange.lastActivity_eq htouch]
    exact hi

theorem UsedSince.lt_of_idle {i : Instant} (hused : m.UsedSince key i) {timeout : Duration}
    (hidle : key ∈ m.idleKeys timeout) : timeout.nanos < m.now - i := by
  obtain ⟨_, r, hr, hi⟩ := hused
  obtain ⟨r', hr', _, hlong⟩ := mem_idleKeys.mp hidle
  rw [hr, Option.some.injEq] at hr'
  subst hr'
  exact Nat.lt_of_lt_of_le hlong (Nat.sub_le_sub_left hi m.now)

/-! ## Idle keys -/

/-- In every state that a run leads to, and for every timeout, the idle keys are the running
keys for which more time than the timeout has passed since they got their records and since
they were last touched; each of them is listed once.  No step moves the activity of a record
but a touch of its key; a touch of a key without a record changes nothing, and one of a key
that has a record counts from then on, whatever the state in which it found the record. -/
theorem exact_idleness {deadline : Duration} {es : List Event}
    (hrun : (start deadline).run es = some m) :
    (∀ timeout, (m.idleKeys timeout).Nodup ∧ ∀ key, key ∈ m.idleKeys timeout ↔
      m.state? key = some .running ∧
        ∃ used, usedAt? key ((start deadline).trail es) = some used ∧
          timeout.nanos < m.now - used) ∧
    (∀ e next key r, m.step e = some next → m.records.find? key = some r → e ≠ .touch key →
      ∃ r', next.records.find? key = some r' ∧ r'.lastActivity = r.lastActivity) ∧
    (∀ key, m.records.find? key = none → m.step (.touch key) = some m) ∧
    (∀ key r later last timeout, m.records.find? key = some r →
      m.run (.touch key :: later) = some last → key ∈ last.idleKeys timeout →
      timeout.nanos < last.now - m.now) := by
  have hm := consistent_of_run hrun
  have hknown := usesKnown_of_run hrun
  refine ⟨?_, ?_, ?_, ?_⟩
  · intro timeout
    refine ⟨nodup_idleKeys m timeout, fun key => ?_⟩
    have hused := hknown.used key
    rw [mem_idleKeys, state?, ← hused]
    cases m.records.find? key with
    | none => simp
    | some r => simp
  · intro e next key r hstep hr hother
    have hchange := recordChange_of_step hm.wakes hstep key
    rw [hr] at hchange
    obtain ⟨r', hr', _⟩ := hchange.some_of_some
    rw [hr'] at hchange
    exact ⟨r', hr', hchange.lastActivity_eq hother⟩
  · intro key hunknown
    have hsame := Table.modify_of_none hunknown (Record.touch m.now)
    show some (m.touch key) = some m
    rw [touch, modify, hsame]
  · intro key r later last timeout hr hlater hidle
    have hafter : (m.touch key).run later = some last := hlater
    have hconsistent : (m.touch key).Consistent := hm.step (e := .touch key) rfl
    have hused : last.UsedSince key m.now :=
      hconsistent.run_induction (P := fun n => n.UsedSince key m.now)
        (fun hm hused hstep => hused.step hm.wakes hstep) (usedSince_touch hr) hafter
    exact hused.lt_of_idle hidle

/-- The key is touched before it is known, and again while its machine is woken; after that
there are a second lookup and the end of the wake. -/
def touchedAsleep : List Event :=
  [.touch "alpha", .elapse (.ofSeconds 5), .ensure 1 "alpha" (.ofSeconds 30) false,
    .described 1 (.ok [⟨"vm-1", "10.0.0.5", "paused", ["alpha"]⟩]), .engage 1, .resume 1,
    .elapse (.ofSeconds 10), .touch "alpha", .elapse (.ofSeconds 10), .lookup 2 "alpha",
    .resumed 1 .done, .deliver 1, .elapse (.ofSeconds 51)]

theorem exact_idleness_touchedAsleep :
    ∃ m, (start defaultResumeDeadline).run touchedAsleep = some m ∧
      usedAt? "alpha" ((start defaultResumeDeadline).trail touchedAsleep) =
        some (Duration.ofSeconds 15).nanos ∧
      "alpha" ∈ m.idleKeys (.ofSeconds 60) ∧ "alpha" ∉ m.idleKeys (.ofSeconds 61) := by
  obtain ⟨m, hrun, hnow, hstate, hused⟩ :
      ∃ m, (start defaultResumeDeadline).run touchedAsleep = some m ∧
        m.now = (Duration.ofSeconds 76).nanos ∧ m.state? "alpha" = some .running ∧
        usedAt? "alpha" ((start defaultResumeDeadline).trail touchedAsleep) =
          some (Duration.ofSeconds 15).nanos := by
    refine ⟨_, rfl, ?_, ?_, ?_⟩ <;> decide
  obtain ⟨hidle, _⟩ := exact_idleness hrun
  refine ⟨m, hrun, hused, ?_, ?_⟩
  · rw [(hidle _).2, hused, hnow]
    exact ⟨hstate, _, rfl, by decide⟩
  · rw [(hidle _).2, hused, hnow]
    rintro ⟨_, _, ⟨⟩, hlong⟩
    exact absurd hlong (by decide)

end WakeRouter.Manager
