import WakeRouter.Proofs.Manager.Records

/-!
# Idle keys and idle machines

A key is idle by its own last activity.  A machine may serve several keys, and who pauses the
machine of an idle key pauses it for all of them.  `idleByMachine_iff` says when no such pause
hits a machine in use: when the running keys of each machine were last used at the same
instant, and in general only then.
-/

namespace WakeRouter

namespace Record

theorem isIdle_iff {now : Instant} {timeout : Duration} {r : Record} :
    r.isIdle now timeout ↔ r.state = .running ∧ timeout.nanos < now - r.lastActivity := by
  simp [isIdle]

theorem lastActivity_ofNodes (nodes : List Node) (now : Instant) :
    (ofNodes nodes now).lastActivity = now := by
  cases nodes <;> rfl

theorem lastActivity_endWake (result : Acknowledgement) (r : Record) :
    (r.endWake result).lastActivity = r.lastActivity := by
  cases result <;> rfl

theorem lastActivity_markPaused (r : Record) : r.markPaused.lastActivity = r.lastActivity := by
  unfold markPaused
  split <;> rfl

end Record

namespace Manager

variable {m next : Manager}

/-! ## Activity and the clock -/

theorem now_le_of_step {e : Event} (hstep : m.step e = some next) : m.now ≤ next.now := by
  cases move_of_step hstep with
  | elapse d => exact Nat.le_add_right _ _
  | @deliver e wake result _ _ =>
      have hnow : ((m.setStage e .delivered).finish wake.key result).now = m.now := by
        unfold finish
        split
        · rfl
        split <;> rfl
      exact Nat.le_of_eq hnow.symm
  | lookup | ensure | undescribed | described | refuse | direct | join | begin | hear | wait
  | cancel | leave | resume | resumed | overrun | brokeDown | touch | markPaused =>
      exact Nat.le_refl m.now

/-- No record was last used in the future. -/
def ActivityPast (m : Manager) : Prop :=
  ∀ key r, m.records.find? key = some r → r.lastActivity ≤ m.now

theorem ActivityPast.step (hpast : m.ActivityPast) (hm : m.WakesHeld) {e : Event}
    (hstep : m.step e = some next) : next.ActivityPast := by
  intro key r' hnext
  have hnow := now_le_of_step hstep
  have hchange := recordChange_of_step hm hstep key
  rw [hnext] at hchange
  generalize hbefore : m.records.find? key = before at hchange
  cases hchange with
  | kept => exact Nat.le_trans (hpast key r' hbefore) hnow
  | discovered nodes =>
      rw [Record.lastActivity_ofNodes]
      exact hnow
  | @begun r c _ => exact Nat.le_trans (hpast key r hbefore) hnow
  | @ended e r result _ _ _ =>
      rw [Record.lastActivity_endWake]
      exact Nat.le_trans (hpast key r hbefore) hnow
  | touched => exact hnow
  | paused r =>
      rw [Record.lastActivity_markPaused]
      exact Nat.le_trans (hpast key r hbefore) hnow

theorem activityPast_of_run {deadline : Duration} {es : List Event}
    (hrun : (start deadline).run es = some m) : m.ActivityPast := by
  apply (consistent_start deadline).run_induction (P := ActivityPast) _ _ hrun
  · intro m e next hm hpast hstep
    exact hpast.step hm.wakes hstep
  · intro key r hr
    simp [start] at hr

/-! ## Idle keys -/

theorem mem_idleKeys {key : String} {timeout : Duration} :
    key ∈ m.idleKeys timeout ↔
      ∃ r, m.records.find? key = some r ∧ r.state = .running ∧
        timeout.nanos < m.now - r.lastActivity := by
  have hkeys : m.idleKeys timeout = m.records.keysWhere (Record.isIdle m.now timeout) := rfl
  rw [hkeys, Table.mem_keysWhere]
  simp only [Record.isIdle_iff]

theorem nodup_idleKeys (m : Manager) (timeout : Duration) : (m.idleKeys timeout).Nodup :=
  m.records.nodup_keysWhere (Record.isIdle m.now timeout)

/-! ## Machines of several keys -/

/-- The machine of an idle key has not been used through any running key of it for longer than
the timeout. -/
def IdleByMachine (m : Manager) (timeout : Duration) : Prop :=
  ∀ key r key' r', key ∈ m.idleKeys timeout → m.records.find? key = some r →
    m.records.find? key' = some r' → r'.state = .running → r'.handle = r.handle →
    timeout.nanos < m.now - r'.lastActivity

/-- The running keys of each machine were last used at the same instant. -/
def UsedTogether (m : Manager) : Prop :=
  ∀ key r key' r', m.records.find? key = some r → m.records.find? key' = some r' →
    r.state = .running → r'.state = .running → r'.handle = r.handle →
    r.lastActivity = r'.lastActivity

theorem UsedTogether.idleByMachine (htogether : m.UsedTogether) (timeout : Duration) :
    m.IdleByMachine timeout := by
  intro key r key' r' hidle hr hr' hrunning' hhandle
  obtain ⟨found, hfound, hrunning, hlong⟩ := mem_idleKeys.mp hidle
  rw [hr, Option.some.injEq] at hfound
  subst found
  rw [← htogether key r key' r' hr hr' hrunning hrunning' hhandle]
  exact hlong

/-- Of two running keys of a machine, the one that was used longer ago is idle for some timeout
for which the other is not. -/
theorem lastActivity_le_of_idleByMachine (hpast : m.ActivityPast)
    (hidle : ∀ timeout, m.IdleByMachine timeout) {key key' : String} {r r' : Record}
    (hr : m.records.find? key = some r) (hr' : m.records.find? key' = some r')
    (hrunning : r.state = .running) (hrunning' : r'.state = .running)
    (hhandle : r'.handle = r.handle) : r'.lastActivity ≤ r.lastActivity := by
  apply Nat.le_of_not_lt
  intro hlater
  have hnow := hpast key' r' hr'
  have hmem : key ∈ m.idleKeys ⟨m.now - r'.lastActivity⟩ := by
    apply mem_idleKeys.mpr
    refine ⟨r, hr, hrunning, ?_⟩
    exact Nat.sub_lt_sub_left (Nat.lt_of_lt_of_le hlater hnow) hlater
  have hless := hidle ⟨m.now - r'.lastActivity⟩ key r key' r' hmem hr hr' hrunning' hhandle
  exact Nat.lt_irrefl _ hless

/-- In every state that a run leads to, idle keys stand for idle machines, whatever the
timeout, just if the running keys of each machine were last used at the same instant; so they
do as long as no machine serves two running keys. -/
theorem idleByMachine_iff {deadline : Duration} {es : List Event}
    (hrun : (start deadline).run es = some m) :
    (∀ timeout, m.IdleByMachine timeout) ↔ m.UsedTogether := by
  have hpast := activityPast_of_run hrun
  constructor
  · intro hidle key r key' r' hr hr' hrunning hrunning' hhandle
    have hle := lastActivity_le_of_idleByMachine hpast hidle hr hr' hrunning hrunning' hhandle
    have hge := lastActivity_le_of_idleByMachine hpast hidle hr' hr hrunning' hrunning hhandle.symm
    exact Nat.le_antisymm hge hle
  · intro htogether timeout
    exact htogether.idleByMachine timeout

/-- One machine is known by its tag and by its name, and is then used by its tag. -/
def usedByTag : List Event :=
  [.lookup 1 "alpha", .described 1 (.ok [⟨"vm-1", "10.0.0.5", "Running", ["alpha"]⟩]),
    .lookup 2 "vm-1", .described 2 (.ok [⟨"vm-1", "10.0.0.5", "Running", ["alpha"]⟩]),
    .elapse (.ofSeconds 61), .touch "alpha"]

theorem idleByMachine_iff_usedByBoth :
    ∃ m, (start defaultResumeDeadline).run (usedByTag ++ [.touch "vm-1"]) = some m ∧
      m.state? "alpha" = some .running ∧ m.handle? "alpha" = m.handle? "vm-1" ∧
      ∀ timeout, m.IdleByMachine timeout := by
  obtain ⟨m, hrun, hstate, hhandle, hused⟩ :
      ∃ m, (start defaultResumeDeadline).run (usedByTag ++ [.touch "vm-1"]) = some m ∧
        m.state? "alpha" = some .running ∧ m.handle? "alpha" = m.handle? "vm-1" ∧
        ∀ entry ∈ m.records.entries, entry.2.lastActivity = m.now :=
    ⟨_, rfl, rfl, rfl, by decide⟩
  refine ⟨m, hrun, hstate, hhandle, (idleByMachine_iff hrun).mpr ?_⟩
  intro key r key' r' hr hr' _ _ _
  have hnow := hused (key, r) (Table.mem_entries_iff.mpr hr)
  have hnow' := hused (key', r') (Table.mem_entries_iff.mpr hr')
  exact hnow.trans hnow'.symm

/-- The machine is idle by its name at the very moment at which it is used by its tag. -/
theorem not_idleByMachine_usedByTag :
    ∃ m, (start defaultResumeDeadline).run usedByTag = some m ∧
      m.idleKeys (.ofSeconds 60) = ["vm-1"] ∧ ¬m.IdleByMachine (.ofSeconds 60) := by
  refine ⟨_, rfl, rfl, fun hidle => ?_⟩
  have hless := hidle "vm-1" _ "alpha" _ (List.mem_singleton.mpr rfl) rfl rfl rfl rfl
  exact absurd hless (by decide)

end Manager

end WakeRouter
