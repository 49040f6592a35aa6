import Mathlib.Algebra.Ring.Nat
import WakeRouter.Proofs.Manager.Run
import WakeRouter.Proofs.Manager.Step

/-!
# What is left to do

The manager brings some events about by itself: callers look, and resume calls begin, are given
up, or have their end delivered.  Such an event changes nothing or lowers `Manager.work`, so a
manager that is left alone settles, and no time passes meanwhile.
-/

namespace WakeRouter

/-! ## Totals of tables -/

namespace Table

variable {κ α : Type} [DecidableEq κ]

/-- The weights of all values together. -/
def total (t : Table κ α) (weight : α → Nat) : Nat :=
  (t.entries.map fun entry => weight entry.2).sum

theorem total_addNew_le (t : Table κ α) (key : κ) (a : α) (weight : α → Nat) :
    (t.addNew key a).total weight ≤ t.total weight + weight a := by
  cases hfind : t.find? key with
  | none => simp [total, entries_addNew_of_none hfind]
  | some old =>
      rw [addNew_of_some hfind]
      omega

theorem total_modify {t : Table κ α} {key : κ} {a : α} (hfound : t.find? key = some a)
    (f : α → α) (weight : α → Nat) :
    (t.modify key f).total weight + weight a = t.total weight + weight (f a) := by
  obtain ⟨before, after, hsplit⟩ := List.append_of_mem (mem_entries_iff.mpr hfound)
  have hnodup := t.nodup
  have hmiddle : (t.entries.map Prod.fst).Perm (key :: (before ++ after).map Prod.fst) := by
    rw [hsplit, List.map_append, List.map_cons, List.map_append]
    exact List.perm_middle
  have hother : ∀ entry ∈ before ++ after, entry.1 ≠ key := by
    rintro entry hentry rfl
    exact (List.nodup_cons.mp (hmiddle.nodup hnodup)).1 (List.mem_map_of_mem hentry)
  have hweight : ∀ entry ∈ before ++ after,
      weight (if entry.1 = key then f entry.2 else entry.2) = weight entry.2 := by
    intro entry hentry
    rw [if_neg (hother entry hentry)]
  have hbefore := List.map_congr_left fun entry hentry =>
    hweight entry (List.mem_append_left after hentry)
  have hafter := List.map_congr_left fun entry hentry =>
    hweight entry (List.mem_append_right before hentry)
  simp only [total, entries_modify, hsplit, List.map_append, List.map_cons, List.map_map,
    Function.comp_def, List.sum_append, List.sum_cons, if_true, hbefore, hafter]
  omega

/-- A change that the weight does not notice leaves the total as it is. -/
theorem total_modify_of_same {f : α → α} {weight : α → Nat} (hsame : ∀ a, weight (f a) = weight a)
    (t : Table κ α) (key : κ) : (t.modify key f).total weight = t.total weight := by
  cases hfound : t.find? key with
  | none => rw [modify_of_none hfound]
  | some a =>
      have htotal := total_modify hfound f weight
      rw [hsame] at htotal
      omega

end Table

/-! ## Events that the manager brings about -/

/-- How many events a wake may still bring about. -/
def WakeStage.work : WakeStage → Nat
  | .spawned => 3
  | .resuming _ => 2
  | .resumed _ => 1
  | .delivered => 0

/-- The same for a caller; one that looks at the record of its key may begin a wake. -/
def CallerPhase.work : CallerPhase → Nat
  | .found => 5
  | .waiting _ => 1
  | .describing | .answered _ | .left => 0

namespace Manager

/-- Whether the manager brings the event about, and need not wait for it. -/
def Event.isOwn : Event → Bool
  | .engage _ | .poll _ | .resume _ | .overrun _ | .deliver _ => true
  | _ => false

/-- All that was due has been done. -/
def Settled (m : Manager) : Prop :=
  ∀ e next, e.isOwn → m.step e = some next → next = m

def work (m : Manager) : Nat :=
  m.wakes.total (fun wake => wake.stage.work) + m.callers.total fun caller => caller.phase.work

variable {m next : Manager}

/-! ## Work -/

theorem work_setPhase {c : CallerId} {caller : Caller} (hcaller : m.callers.find? c = some caller)
    (phase : CallerPhase) :
    (m.setPhase c phase).work + caller.phase.work = m.work + phase.work := by
  have htotal := Table.total_modify hcaller (fun caller => { caller with phase := phase })
    fun caller => caller.phase.work
  simp only [work, setPhase] at htotal ⊢
  omega

theorem work_setStage {e : Episode} {wake : Wake} (hwake : m.wakes.find? e = some wake)
    (stage : WakeStage) :
    (m.setStage e stage).work + wake.stage.work = m.work + stage.work := by
  have htotal := Table.total_modify hwake (fun wake => { wake with stage := stage })
    fun wake => wake.stage.work
  simp only [work, setStage] at htotal ⊢
  omega

theorem work_beginWake_le (m : Manager) (c : CallerId) (key : String) (r : Record) :
    (m.beginWake c key r).work ≤ m.work + 3 := by
  have htotal := m.wakes.total_addNew_le c ⟨key, r.handle, .spawned, none⟩
    fun wake => wake.stage.work
  have hspawned : WakeStage.spawned.work = 3 := rfl
  simp only [hspawned] at htotal
  simp only [work, beginWake]
  omega

theorem work_finish (m : Manager) (key : String) (result : Acknowledgement) :
    (m.finish key result).work = m.work := by
  unfold finish
  split
  · rfl
  split
  · simp only [work, publish, modify]
    rw [Table.total_modify_of_same]
    intro wake
    rfl
  · rfl

theorem work_lt_of_engage {c : CallerId} (hmove : m.Move (.engage c) next) :
    next.work < m.work := by
  have hlooks : ∀ (n : Manager) caller phase, m.callers.find? c = some caller →
      caller.phase = .found → n.callers = m.callers → n.work ≤ m.work + 3 → phase.work ≤ 1 →
      (n.setPhase c phase).work < m.work := by
    intro n caller phase hcaller hphase hcallers hn hlow
    have hwork := work_setPhase (hcallers ▸ hcaller) phase
    have hfound : caller.phase.work = 5 := by rw [hphase]; rfl
    omega
  have hsame : m.work ≤ m.work + 3 := Nat.le_add_right _ _
  cases hmove with
  | refuse hcaller hphase | direct hcaller hphase =>
      exact hlooks m _ _ hcaller hphase rfl hsame (Nat.zero_le 1)
  | join hwants => exact hlooks m _ _ hwants.caller_eq hwants.phase_eq rfl hsame (Nat.le_refl 1)
  | begin hwants =>
      exact hlooks _ _ _ hwants.caller_eq hwants.phase_eq rfl (work_beginWake_le m _ _ _)
        (Nat.le_refl 1)

theorem work_lt_of_stage {e : Episode} {wake : Wake} {stage : WakeStage}
    (hwake : m.wakes.find? e = some wake) (hless : stage.work < wake.stage.work) :
    (m.setStage e stage).work < m.work := by
  have hwork := work_setStage hwake stage
  omega

theorem work_lt_of_hear {c : CallerId} {caller : Caller} {w : Wait} (a : Answer)
    (hcaller : m.callers.find? c = some caller) (hphase : caller.phase = .waiting w) :
    (m.setPhase c (.answered a)).work < m.work := by
  have hwork := work_setPhase hcaller (.answered a)
  have hwaiting : caller.phase.work = 1 := by rw [hphase]; rfl
  have hanswered : (CallerPhase.answered a).work = 0 := rfl
  omega

theorem work_of_move {e : Event} (hmove : m.Move e next) (hown : e.isOwn) :
    next = m ∨ next.work < m.work := by
  cases e with
  | engage c => exact .inr (work_lt_of_engage hmove)
  | poll c =>
      cases hmove with
      | hear hcaller hphase hverdict => exact .inr (work_lt_of_hear _ hcaller hphase)
      | wait => exact .inl rfl
  | resume e =>
      cases hmove with
      | resume hwake hstage =>
          exact .inr (work_lt_of_stage hwake (by simp [hstage, WakeStage.work]))
  | overrun e =>
      cases hmove with
      | overrun hwake hstage hlate =>
          exact .inr (work_lt_of_stage hwake (by simp [hstage, WakeStage.work]))
  | deliver e =>
      cases hmove with
      | deliver hwake hstage =>
          rw [work_finish]
          exact .inr (work_lt_of_stage hwake (by simp [hstage, WakeStage.work]))
  | elapse | lookup | ensure | described | cancel | leave | resumed | brokeDown | touch
  | markPaused => cases hown

/-- Left alone, the manager settles after finitely many events of its own. -/
theorem exists_settled (m : Manager) :
    ∃ es last, m.run es = some last ∧ (∀ e ∈ es, e.isOwn) ∧ last.Settled := by
  induction hwork : m.work using Nat.strongRecOn generalizing m with
  | ind n ih =>
      by_cases hsettled : m.Settled
      · exact ⟨[], m, rfl, by simp, hsettled⟩
      · obtain ⟨e, next, hown, hstep, hchanged⟩ :
            ∃ e next, e.isOwn ∧ m.step e = some next ∧ next ≠ m := by
          simpa [Settled] using hsettled
        have hless : next.work < n := by
          have hless := (work_of_move (move_of_step hstep) hown).resolve_left hchanged
          rwa [hwork] at hless
        obtain ⟨es, last, hrun, hall, hlast⟩ := ih next.work hless next rfl
        refine ⟨e :: es, last, ?_, ?_, hlast⟩
        · exact (Run.after?_cons hstep es).trans hrun
        · intro e' he'
          rcases List.mem_cons.mp he' with rfl | hrest
          · exact hown
          · exact hall e' hrest

/-! ## Settled managers -/

/-- Whether nothing is left to do for the wake but to wait. -/
def restsWake (m : Manager) (wake : Wake) : Bool :=
  match wake.stage with
  | .delivered => true
  | .resuming since => m.now < since + m.resumeDeadline.nanos
  | .spawned | .resumed _ => false

def restsCaller (m : Manager) (caller : Caller) : Bool :=
  match caller.phase, caller.purpose with
  | .found, .ensure _ => false
  | .waiting w, _ => (m.verdict? caller w).isNone
  | _, _ => true

theorem Settled.work_not_lt (hsettled : m.Settled) {e : Event} (hmove : m.Move e next)
    (hown : e.isOwn) : ¬next.work < m.work := by
  rw [hsettled e next hown hmove.step_eq]
  exact Nat.lt_irrefl _

theorem Settled.restsWake (hsettled : m.Settled) {e : Episode} {wake : Wake}
    (hwake : m.wakes.find? e = some wake) : m.restsWake wake := by
  unfold Manager.restsWake
  split
  next => rfl
  next since hstage =>
    by_cases hlate : since + m.resumeDeadline.nanos ≤ m.now
    · have hmove := Move.overrun hwake hstage hlate
      refine absurd (work_lt_of_stage hwake ?_) (hsettled.work_not_lt hmove rfl)
      simp [hstage, WakeStage.work]
    · exact decide_eq_true (Nat.lt_of_not_le hlate)
  next hstage =>
    have hmove := Move.resume hwake hstage
    refine absurd (work_lt_of_stage hwake ?_) (hsettled.work_not_lt hmove rfl)
    simp [hstage, WakeStage.work]
  next result hstage =>
    have hmove := Move.deliver hwake hstage
    have hless : ((m.setStage e .delivered).finish wake.key result).work < m.work := by
      rw [work_finish]
      exact work_lt_of_stage hwake (by simp [hstage, WakeStage.work])
    exact absurd hless (hsettled.work_not_lt hmove rfl)

theorem Settled.restsCaller (hsettled : m.Settled) {c : CallerId} {caller : Caller}
    (hcaller : m.callers.find? c = some caller) : m.restsCaller caller := by
  unfold Manager.restsCaller
  split
  next timeout hphase hpurpose =>
    have hmove := move_engage hcaller hphase hpurpose
    exact absurd (work_lt_of_engage hmove) (hsettled.work_not_lt hmove rfl)
  next _ w hphase =>
    cases hverdict : m.verdict? caller w with
    | none => rfl
    | some a =>
        have hmove := Move.hear hcaller hphase hverdict
        exact absurd (work_lt_of_hear a hcaller hphase) (hsettled.work_not_lt hmove rfl)
  next => rfl

theorem settled_iff :
    m.Settled ↔ (∀ entry ∈ m.wakes.entries, m.restsWake entry.2) ∧
      ∀ entry ∈ m.callers.entries, m.restsCaller entry.2 := by
  constructor
  · intro hsettled
    refine ⟨fun entry hentry => ?_, fun entry hentry => ?_⟩
    · exact hsettled.restsWake (Table.mem_entries_iff.mp hentry)
    · exact hsettled.restsCaller (Table.mem_entries_iff.mp hentry)
  · rintro ⟨hwakes, hcallers⟩ e next hown hstep
    have hwake : ∀ {e wake}, m.wakes.find? e = some wake → m.restsWake wake :=
      fun hfind => hwakes _ (Table.mem_entries_iff.mpr hfind)
    have hcaller : ∀ {c caller}, m.callers.find? c = some caller → m.restsCaller caller :=
      fun hfind => hcallers _ (Table.mem_entries_iff.mpr hfind)
    cases move_of_step hstep with
    | refuse hfind hphase hpurpose | direct hfind hphase hpurpose =>
        have hrests := hcaller hfind
        simp [restsCaller, hphase, hpurpose] at hrests
    | join hwants hpurpose | begin hwants hpurpose =>
        have hrests := hcaller hwants.caller_eq
        simp [restsCaller, hwants.phase_eq, hpurpose] at hrests
    | hear hfind hphase hverdict =>
        have hrests := hcaller hfind
        simp [restsCaller, hphase, hverdict] at hrests
    | wait => rfl
    | resume hfind hstage | deliver hfind hstage =>
        have hrests := hwake hfind
        simp [restsWake, hstage] at hrests
    | overrun hfind hstage hlate =>
        have hrests := hwake hfind
        simp only [restsWake, hstage, decide_eq_true_eq] at hrests
        exact absurd hlate (Nat.not_le_of_lt hrests)
    | elapse | lookup | ensure | undescribed | described | cancel | leave | resumed
    | brokeDown | touch | markPaused => cases hown

instance : Decidable m.Settled :=
  decidable_of_iff _ settled_iff.symm

end Manager

end WakeRouter
