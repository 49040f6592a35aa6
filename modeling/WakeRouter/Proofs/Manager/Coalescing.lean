import WakeRouter.Proofs.Manager.Episodes

/-!
# One wake for all

Each time the record of a key begins to wake, one wake begins, which makes one resume call.
The end of the call ends that wake and no other, and every caller that waited for the wake
is told the same.
-/

namespace WakeRouter

/-- Whether the answer says how a wake ended. -/
def Answer.tellsEnd : Answer → Bool
  | .address _ | .error (.wakeFailed _ _) => true
  | _ => false

namespace Manager

variable {m next : Manager}

/-! ## Wakes and waking records -/

/-- The wakes that were ever begun for the key. -/
def begun (m : Manager) (key : String) : List Episode :=
  m.wakes.keysWhere fun wake => wake.key = key

/-- Whether the record of the key begins to wake in the step. -/
def Transition.entersWaking (key : String) (t : Transition) : Bool :=
  t.before.state? key ≠ some .waking ∧ t.after.state? key = some .waking

theorem begun_setStage (m : Manager) (e : Episode) (stage : WakeStage) (key : String) :
    (m.setStage e stage).begun key = m.begun key := by
  simp only [begun, setStage]
  apply Table.keysWhere_modify
  intro wake
  rfl

theorem begun_finish (m : Manager) (finished : String) (result : Acknowledgement)
    (key : String) : (m.finish finished result).begun key = m.begun key := by
  unfold begun finish
  split
  · rfl
  split
  · simp only [publish, wakes_modify]
    apply Table.keysWhere_modify
    intro wake
    rfl
  · rfl

theorem begun_beginWake {c : CallerId} (hfresh : m.wakes.find? c = none) (woken : String)
    (r : Record) (key : String) :
    (m.beginWake c woken r).begun key =
      m.begun key ++ if woken = key then [c] else [] := by
  have hkeys := Table.keysWhere_addNew hfresh (⟨woken, r.handle, .spawned, none⟩ : Wake)
    fun wake => wake.key = key
  simp only [decide_eq_true_eq] at hkeys
  exact hkeys

theorem waking_of_modify {changed key : String} {f : Record → Record}
    (hf : Record.KeepsWake f) (hwaking : (m.modify changed f).state? key = some .waking) :
    m.state? key = some .waking := by
  rw [state?_eq_some_iff] at hwaking ⊢
  obtain ⟨r, hr, hstate⟩ := hwaking
  rw [find?_records_modify] at hr
  split at hr
  · obtain ⟨old, hold, rfl⟩ := Option.map_eq_some_iff.mp hr
    exact ⟨old, hold, (hf.waking_iff old).mp hstate⟩
  · exact ⟨r, hr, hstate⟩

theorem waking_of_discover {found key : String} {nodes : List Node}
    (hwaking : (m.discover found nodes).state? key = some .waking) :
    m.state? key = some .waking := by
  rw [state?_eq_some_iff] at hwaking ⊢
  obtain ⟨r, hr, hstate⟩ := hwaking
  rw [find?_records_discover] at hr
  split at hr
  next hkey =>
    subst key
    cases hold : m.records.find? found with
    | none =>
        rw [hold, Option.getD_none, Option.some.injEq] at hr
        subst r
        exact absurd hstate (Record.ofNodes_state_ne_waking nodes m.now)
    | some old =>
        rw [hold, Option.getD_some] at hr
        exact ⟨r, hr, hstate⟩
  next => exact ⟨r, hr, hstate⟩

/-- A wake begins for a key just when its record begins to wake. -/
theorem begun_of_step (hm : m.Consistent) {e : Event} (hstep : m.step e = some next)
    (key : String) :
    (next.begun key = m.begun key ∧
      (next.state? key = some .waking → m.state? key = some .waking)) ∨
    ∃ c, next.begun key = m.begun key ++ [c] ∧ m.state? key ≠ some .waking ∧
      next.state? key = some .waking := by
  cases move_of_step hstep with
  | @begin c caller r timeout hwants _ hwake =>
      have hfresh : m.wakes.find? c = none :=
        hm.callers.wakes_eq_none hwants.caller_eq fun hpast => hpast.2 hwants.phase_eq
      have hbegun := begun_beginWake hfresh caller.key r key
      have hstate := find?_records_beginWake m c caller.key key r
      by_cases hkey : key = caller.key
      · right
        subst key
        rw [if_pos rfl, hwants.record_eq, Option.map_some] at hstate
        refine ⟨c, hbegun.trans (by simp), ?_, ?_⟩
        · rw [state?, hwants.record_eq]
          rcases hwants.state hm.wakes hwake with h | h <;> simp [h]
        · rw [state?, records_setPhase, hstate]
          rfl
      · left
        rw [if_neg hkey] at hstate
        refine ⟨hbegun.trans (by simp [Ne.symm hkey]), fun hwaking => ?_⟩
        rw [state?, records_setPhase, hstate] at hwaking
        exact hwaking
  | @deliver e wake result hwake hstage =>
      left
      refine ⟨(begun_finish _ _ _ _).trans (begun_setStage m _ _ _), fun hwaking => ?_⟩
      obtain ⟨r, hends⟩ := hm.wakes.ends hwake hstage
      rw [state?_eq_some_iff] at hwaking ⊢
      obtain ⟨r', hr', hstate⟩ := hwaking
      rw [hends.records_eq] at hr'
      split at hr'
      · cases hr'
        exact absurd hstate (Record.endWake_state_ne_waking result r)
      · exact ⟨r', hr', hstate⟩
  | resume | resumed | overrun | brokeDown => exact .inl ⟨begun_setStage m _ _ _, id⟩
  | described => exact .inl ⟨rfl, waking_of_discover⟩
  | touch => exact .inl ⟨rfl, waking_of_modify (Record.keepsWake_touch m.now)⟩
  | markPaused => exact .inl ⟨rfl, waking_of_modify Record.keepsWake_markPaused⟩
  | elapse | lookup | ensure | undescribed | refuse | direct | join | hear | wait | cancel
  | leave => exact .inl ⟨rfl, id⟩

theorem length_begun_of_run {deadline : Duration} {es : List Event}
    (hrun : (start deadline).run es = some m) (key : String) :
    (m.begun key).length =
      ((start deadline).trail es).countP (Transition.entersWaking key) := by
  apply (consistent_start deadline).trail_induction
    (P := fun ts n => (n.begun key).length = ts.countP (Transition.entersWaking key)) _ rfl hrun
  intro ts m e next hm hcount hstep
  rw [List.countP_append, List.countP_singleton]
  rcases begun_of_step hm hstep key with ⟨hbegun, hstate⟩ | ⟨c, hbegun, hbefore, hafter⟩
  · have hquiet : Transition.entersWaking key ⟨m, e, next⟩ = false := by
      simpa [Transition.entersWaking] using mt hstate
    rw [hbegun, hcount, hquiet]
    rfl
  · have henters : Transition.entersWaking key ⟨m, e, next⟩ = true := by
      simp [Transition.entersWaking, hbefore, hafter]
    rw [hbegun, List.length_append, hcount, henters]
    rfl

theorem Transition.entersWaking_iff {t : Transition} {key : String} :
    t.entersWaking key ↔ t.before.state? key ≠ some .waking ∧ t.after.state? key = some .waking :=
  decide_eq_true_iff

/-- A record begins to wake when a wake of its key begins. -/
theorem entersWaking_of_begun (hm : m.Consistent) {event : Event}
    (hstep : m.step event = some next) {e : Episode} {wake : Wake}
    (hnone : m.wakes.find? e = none) (hwake : next.wakes.find? e = some wake) :
    Transition.entersWaking wake.key ⟨m, event, next⟩ := by
  have hmem : e ∈ next.begun wake.key := Table.mem_keysWhere.mpr ⟨wake, hwake, by simp⟩
  rcases begun_of_step hm hstep wake.key with ⟨hsame, _⟩ | ⟨_, _, hbefore, hafter⟩
  · rw [hsame] at hmem
    obtain ⟨old, hold, _⟩ := Table.mem_keysWhere.mp hmem
    rw [hnone] at hold
    cases hold
  · exact Transition.entersWaking_iff.mpr ⟨hbefore, hafter⟩

/-- Each wake began in a step in which its caller looked at the record of its key. -/
def WakesBegun (ts : List Transition) (m : Manager) : Prop :=
  ∀ e wake, m.wakes.find? e = some wake → ∃ earlier t later,
    ts = earlier ++ t :: later ∧ t.event = .engage e ∧ t.entersWaking wake.key

theorem WakesBegun.step {ts : List Transition} (hm : m.Consistent) (hbegun : WakesBegun ts m)
    {event : Event} (hstep : m.step event = some next) :
    WakesBegun (ts ++ [⟨m, event, next⟩]) next := by
  intro e wake' hwake'
  have hearlier : ∀ wake, m.wakes.find? e = some wake → ∃ earlier t later,
      ts ++ [⟨m, event, next⟩] = earlier ++ t :: later ∧ t.event = .engage e ∧
        t.entersWaking wake'.key := by
    intro wake hwake
    obtain ⟨same, hsame, hkey⟩ := wake_of_step hm hstep hwake
    obtain rfl : same = wake' := Option.some.inj (hsame.symm.trans hwake')
    obtain ⟨earlier, t, later, rfl, hevent, henters⟩ := hbegun e wake hwake
    exact ⟨earlier, t, later ++ [⟨m, event, next⟩], by simp, hevent, hkey ▸ henters⟩
  have hchange := wakeChange_of_step hm hstep e
  rw [hwake'] at hchange
  generalize hbefore : m.wakes.find? e = before at hchange
  cases hchange with
  | kept | resuming | resumed | delivered => exact hearlier _ hbefore
  | begun key handle =>
      exact ⟨ts, ⟨m, .engage e, next⟩, [], rfl, rfl, entersWaking_of_begun hm hstep hbefore hwake'⟩

theorem wakesBegun_of_run {deadline : Duration} {es : List Event}
    (hrun : (start deadline).run es = some m) : WakesBegun ((start deadline).trail es) m := by
  apply (consistent_start deadline).trail_induction (P := WakesBegun) _ _ hrun
  · intro ts m e next hm hbegun hstep
    exact hbegun.step hm hstep
  · intro e wake hwake
    simp [start] at hwake

/-! ## One call for each wake -/

def Call.isResumeOf (e : Episode) : Call → Bool
  | .describe _ _ => false
  | .resume e' _ => e' = e

/-- The resume calls of the wake, going by how far it has come. -/
def resumesSoFar (m : Manager) (e : Episode) : List Call :=
  match m.wakes.find? e with
  | none => []
  | some wake => if wake.stage = .spawned then [] else [.resume e wake.handle]

theorem call?_eq_describe {event : Event} {call : Call} (hcall : m.call? event = some call)
    (hother : ∀ e, event ≠ .resume e) : ∃ c key, call = .describe c key := by
  unfold call? at hcall
  split at hcall
  · rw [Option.ite_none_right_eq_some, Option.some.injEq] at hcall
    exact ⟨_, _, hcall.2.symm⟩
  · rw [Option.ite_none_right_eq_some, Option.some.injEq] at hcall
    exact ⟨_, _, hcall.2.symm⟩
  · exact absurd rfl (hother _)
  · cases hcall

theorem filter_call?_of_ne {event : Event} {e : Episode} (hother : event ≠ .resume e) :
    (m.call? event).toList.filter (Call.isResumeOf e) = [] := by
  cases hcall : m.call? event with
  | none => rfl
  | some call =>
      by_cases hresume : ∃ e', event = .resume e'
      · obtain ⟨e', rfl⟩ := hresume
        obtain ⟨wake, _, rfl⟩ := Option.map_eq_some_iff.mp hcall
        have hne : e' ≠ e := fun he => hother (he ▸ rfl)
        simp [Call.isResumeOf, hne]
      · obtain ⟨c, key, rfl⟩ := call?_eq_describe hcall fun e' he => hresume ⟨e', he⟩
        simp [Call.isResumeOf]

theorem resumesSoFar_of_step (hm : m.Consistent) {event : Event}
    (hstep : m.step event = some next) (e : Episode) :
    next.resumesSoFar e =
      m.resumesSoFar e ++ (m.call? event).toList.filter (Call.isResumeOf e) := by
  have hchange := wakeChange_of_step hm hstep e
  unfold resumesSoFar
  generalize hbefore : m.wakes.find? e = before at hchange
  generalize next.wakes.find? e = after at hchange
  cases hchange with
  | kept hother => rw [filter_call?_of_ne hother, List.append_nil]
  | begun key handle => rfl
  | resuming hstage =>
      simp [call?, hbefore, hstage, Call.isResumeOf]
  | resumed result hother hstage =>
      rw [filter_call?_of_ne hother]
      simp [hstage]
  | delivered hstage address =>
      rw [filter_call?_of_ne (by simp)]
      simp [hstage]

theorem filter_calls_of_run {deadline : Duration} {es : List Event}
    (hrun : (start deadline).run es = some m) (e : Episode) :
    ((start deadline).calls es).filter (Call.isResumeOf e) = m.resumesSoFar e := by
  apply (consistent_start deadline).trail_induction
    (P := fun ts n => (ts.filterMap fun t => t.before.call? t.event).filter (Call.isResumeOf e) =
      n.resumesSoFar e) _ rfl hrun
  intro ts m event next hm hcalls hstep
  rw [List.filterMap_append, List.filter_append, hcalls, resumesSoFar_of_step hm hstep]
  cases hcall : m.call? event <;> simp [hcall]

/-! ## One outcome for all who waited -/

/-- Where a caller can be that waited for a wake. -/
inductive AfterWait (m : Manager) (key : String) (w : Wait) : CallerPhase → Prop
  | waiting : AfterWait m key w (.waiting w)
  | left : AfterWait m key w .left
  | answered {a : Answer}
      (hends : a.tellsEnd →
        ∃ outcome, m.outcome? w.episode = some outcome ∧ a = outcome.answer key) :
      AfterWait m key w (.answered a)

theorem verdict?_of_tellsEnd (hm : m.Consistent) {c : CallerId} {caller : Caller} {w : Wait}
    {a : Answer} (hcaller : m.callers.find? c = some caller) (hphase : caller.phase = .waiting w)
    (hverdict : m.verdict? caller w = some a) (htells : a.tellsEnd) :
    ∃ outcome, m.outcome? w.episode = some outcome ∧ a = outcome.answer caller.key := by
  unfold verdict? at hverdict
  cases houtcome : m.outcome? w.episode with
  | some outcome =>
      simp only [houtcome, Option.some.injEq] at hverdict
      exact ⟨outcome, rfl, hverdict.symm⟩
  | none =>
      obtain ⟨r, hr, _, he⟩ := hm.awaited_held hcaller hphase houtcome
      have hheld : m.isHeld w.episode := isHeld_iff.mpr ⟨caller.key, r, hr, he⟩
      simp only [houtcome, hheld, Bool.not_true, Bool.false_eq_true, if_false] at hverdict
      -- Neither the end of the patience nor a cancellation tells how the wake ended.
      split at hverdict
      · cases hverdict
        cases htells
      split at hverdict
      · cases hverdict
        cases htells
      · cases hverdict

theorem afterWait_of_step (hm : m.Consistent) {event : Event}
    (hstep : m.step event = some next) {c : CallerId} {caller : Caller} {w : Wait}
    (hcaller : m.callers.find? c = some caller)
    (hafter : m.AfterWait caller.key w caller.phase) :
    ∃ caller', next.callers.find? c = some caller' ∧ caller'.key = caller.key ∧
      next.AfterWait caller.key w caller'.phase := by
  obtain ⟨caller', hcaller', hchange⟩ := callerChange_of_step hstep hcaller
  have hout : ∀ outcome, m.outcome? w.episode = some outcome →
      next.outcome? w.episode = some outcome :=
    fun _ houtcome => outcome?_of_step hm hstep houtcome
  have hkept : next.AfterWait caller.key w caller.phase := by
    revert hafter
    generalize caller.phase = phase
    intro hafter
    cases hafter with
    | waiting => exact .waiting
    | left => exact .left
    | answered hends =>
        refine .answered fun htells => ?_
        obtain ⟨outcome, houtcome, ha⟩ := hends htells
        exact ⟨outcome, hout outcome houtcome, ha⟩
  refine ⟨caller', hcaller', ?_⟩
  cases hchange with
  | kept => exact ⟨rfl, hkept⟩
  | looked hlooks phase =>
      have hpast : caller.IsPast := by
        generalize hphase : caller.phase = phase at hafter
        cases hafter <;> simp [Caller.IsPast, hphase]
      exact absurd hpast hlooks
  | @heard w' a hphase hverdict =>
      rw [hphase] at hafter
      cases hafter
      refine ⟨rfl, .answered fun htells => ?_⟩
      obtain ⟨outcome, houtcome, ha⟩ := verdict?_of_tellsEnd hm hcaller hphase hverdict htells
      exact ⟨outcome, hout outcome houtcome, ha⟩
  | cancelled => exact ⟨rfl, hkept⟩
  | left => exact ⟨rfl, .left⟩

/-- At some moment of the run the caller waited for the wake. -/
def WaitedFor (first : Manager) (es : List Event) (c : CallerId) (e : Episode) : Prop :=
  ∃ before later middle caller w, es = before ++ later ∧ first.run before = some middle ∧
    middle.callers.find? c = some caller ∧ caller.phase = .waiting w ∧ w.episode = e

theorem afterWait_of_run {deadline : Duration} {es : List Event}
    (hrun : (start deadline).run es = some m) {c : CallerId} {e : Episode}
    (hwaited : WaitedFor (start deadline) es c e) :
    ∃ caller w wake, m.callers.find? c = some caller ∧ w.episode = e ∧
      m.AfterWait caller.key w caller.phase ∧ m.wakes.find? e = some wake ∧
      wake.key = caller.key := by
  obtain ⟨before, later, middle, caller, w, rfl, hbefore, hcaller, hphase, rfl⟩ := hwaited
  have hrun := (Run.after?_append_of_run hbefore later).symm.trans hrun
  have hmiddle := consistent_of_run hbefore
  obtain ⟨wake, hwake, hkey⟩ := hmiddle.callers.awaited hcaller hphase
  have hlast : ∃ caller wake, m.callers.find? c = some caller ∧
      m.AfterWait caller.key w caller.phase ∧ m.wakes.find? w.episode = some wake ∧
      wake.key = caller.key := by
    apply hmiddle.run_induction (P := fun n => ∃ caller wake, n.callers.find? c = some caller ∧
      n.AfterWait caller.key w caller.phase ∧ n.wakes.find? w.episode = some wake ∧
      wake.key = caller.key) _ ⟨caller, wake, hcaller, hphase ▸ .waiting, hwake, hkey⟩ hrun
    rintro n event next hn ⟨caller, wake, hcaller, hafter, hwake, hkey⟩ hstep
    obtain ⟨caller', hcaller', hsame, hafter'⟩ := afterWait_of_step hn hstep hcaller hafter
    obtain ⟨wake', hwake', hkey'⟩ := wake_of_step hn hstep hwake
    exact ⟨caller', wake', hcaller', hsame ▸ hafter', hwake',
      (hkey'.trans hkey).trans hsame.symm⟩
  obtain ⟨caller', wake', hcaller', hafter', hwake', hkey'⟩ := hlast
  exact ⟨caller', w, wake', hcaller', rfl, hafter', hwake', hkey'⟩

/-- The caller waited for the wake, and at the end of the run it has been told how the wake
ended. -/
structure WasTold (first : Manager) (es : List Event) (last : Manager) (c : CallerId)
    (e : Episode) (a : Answer) : Prop where
  waited : WaitedFor first es c e
  answered : (last.callers.find? c).bind Caller.answer? = some a
  tells : a.tellsEnd

theorem answer_of_wasTold {deadline : Duration} {es : List Event}
    (hrun : (start deadline).run es = some m) {c : CallerId} {e : Episode} {wake : Wake}
    {a : Answer} (hwake : m.wakes.find? e = some wake)
    (htold : WasTold (start deadline) es m c e a) :
    ∃ outcome, wake.outcome? = some outcome ∧ a = outcome.answer wake.key := by
  obtain ⟨caller, w, wake', hcaller, rfl, hafter, hwake', hkey⟩ :=
    afterWait_of_run hrun htold.waited
  rw [hwake, Option.some.injEq] at hwake'
  subst wake'
  have hanswered := htold.answered
  rw [hcaller, Option.bind_some, Caller.answer?] at hanswered
  generalize caller.phase = phase at hanswered hafter
  cases hafter with
  | waiting => cases hanswered
  | left => cases hanswered
  | answered hends =>
      cases hanswered
      obtain ⟨outcome, houtcome, ha⟩ := hends htold.tells
      rw [outcome?, hwake, Option.bind_some] at houtcome
      exact ⟨outcome, houtcome, hkey ▸ ha⟩

/-! ## The law -/

/-- However events interleave, a key has as many wakes as its record began to wake, each of
which makes one resume call, and of which one at most is under way.  The end of a call ends
the wake that the record holds, which is the one that the call was made for.  All who waited
for a wake and hear how it ended hear the same: the address in the record, or the error with
which the wake failed. -/
theorem coalesced_wake {deadline : Duration} {es : List Event}
    (hrun : (start deadline).run es = some m) :
    (∀ key, (m.begun key).length =
      ((start deadline).trail es).countP (Transition.entersWaking key)) ∧
    (∀ e, ((start deadline).calls es).filter (Call.isResumeOf e) = m.resumesSoFar e) ∧
    (∀ key, (m.outstanding key).length ≤ 1) ∧
    (∀ e next, m.step (.deliver e) = some next → ∃ wake result r,
      m.wakes.find? e = some wake ∧ wake.stage = .resumed result ∧ wake.outcome? = none ∧
      m.records.find? wake.key = some r ∧ r.state = .waking ∧ r.wake? = some e ∧
      (∃ r', next.records.find? wake.key = some r' ∧ r.SameUse r' ∧ r.LeavesWake result r') ∧
      next.outcome? e = some (.ofResult r.address result) ∧
      ∀ e', e' ≠ e → next.wakes.find? e' = m.wakes.find? e') ∧
    (∀ e wake, m.wakes.find? e = some wake → ∃ r, m.records.find? wake.key = some r ∧
      ((∀ c a, WasTold (start deadline) es m c e a → a = .address r.address) ∨
        ∃ cause, ∀ c a, WasTold (start deadline) es m c e a →
          a = .error (.wakeFailed wake.key cause))) := by
  have hm := consistent_of_run hrun
  refine ⟨length_begun_of_run hrun, filter_calls_of_run hrun, ?_, ?_, ?_⟩
  · intro key
    rw [hm.wakes.outstanding_eq]
    cases (m.records.find? key).bind Record.wake? <;> simp
  · intro e next hstep
    cases move_of_step hstep with
    | @deliver e wake result hwake hstage =>
        obtain ⟨r, hends⟩ := hm.wakes.ends hwake hstage
        have hnone : wake.outcome? = none := by
          simpa [hstage] using hm.wakes.outcome_iff hwake
        refine ⟨wake, result, r, hwake, hstage, hnone, hends.record_eq, hends.waking,
          hends.holds, ?_, ?_, ?_⟩
        · exact ⟨_, by rw [hends.records_eq, if_pos rfl], Record.sameUse_endWake result r,
            Record.leavesWake_endWake hends.waking result⟩
        · rw [outcome?, hends.wakes_eq, if_pos rfl, Option.bind_some]
        · intro e' hne
          rw [hends.wakes_eq, if_neg hne]
  · intro e wake hwake
    obtain ⟨r, hr, _, haddress⟩ := hm.wakes.target hwake
    refine ⟨r, hr, ?_⟩
    have htold := fun c a (h : WasTold (start deadline) es m c e a) =>
      answer_of_wasTold hrun hwake h
    cases houtcome : wake.outcome? with
    | none =>
        left
        intro c a h
        obtain ⟨outcome, hsome, _⟩ := htold c a h
        rw [houtcome] at hsome
        cases hsome
    | some outcome =>
        cases outcome with
        | ready address =>
            left
            intro c a h
            obtain ⟨outcome, hsome, rfl⟩ := htold c a h
            rw [houtcome, Option.some.injEq] at hsome
            subst outcome
            rw [← haddress address houtcome]
            rfl
        | failed cause =>
            right
            refine ⟨cause, fun c a h => ?_⟩
            obtain ⟨outcome, hsome, rfl⟩ := htold c a h
            rw [houtcome, Option.some.injEq] at hsome
            subst outcome
            rfl

/-- Three callers share a wake, and the second does not wait for its end. -/
def sharedWake : List Event :=
  [.ensure 1 "alpha" (.ofSeconds 5) false,
    .described 1 (.ok [⟨"vm-1", "10.0.0.5", "paused", ["alpha"]⟩]), .engage 1,
    .ensure 2 "alpha" .zero false, .engage 2, .ensure 3 "alpha" (.ofSeconds 5) false, .engage 3,
    .poll 2, .resume 1, .resumed 1 .done, .deliver 1, .poll 3, .poll 1]

theorem coalesced_wake_sharedWake :
    ∃ m, (start defaultResumeDeadline).run sharedWake = some m ∧
      ((start defaultResumeDeadline).trail sharedWake).countP (Transition.entersWaking "alpha") =
        1 ∧
      ((start defaultResumeDeadline).calls sharedWake).filter (Call.isResumeOf 1) =
        [.resume 1 "vm-1"] ∧
      WasTold (start defaultResumeDeadline) sharedWake m 1 1 (.address "10.0.0.5") ∧
      ∀ a, WasTold (start defaultResumeDeadline) sharedWake m 3 1 a → a = .address "10.0.0.5" := by
  obtain ⟨m, hrun, htold, hwake, hone, hcalled⟩ :
      ∃ m, (start defaultResumeDeadline).run sharedWake = some m ∧
        WasTold (start defaultResumeDeadline) sharedWake m 1 1 (.address "10.0.0.5") ∧
        (m.wakes.find? 1).isSome ∧ (m.begun "alpha").length = 1 ∧
        m.resumesSoFar 1 = [.resume 1 "vm-1"] :=
    ⟨_, rfl, ⟨⟨sharedWake.take 3, sharedWake.drop 3, _, _, _, rfl, rfl, rfl, rfl, rfl⟩, rfl, rfl⟩,
      rfl, rfl, rfl⟩
  obtain ⟨hbegun, hcalls, _, _, hsame⟩ := coalesced_wake hrun
  refine ⟨m, hrun, (hbegun "alpha").symm.trans hone, (hcalls 1).trans hcalled, htold,
    fun a ha => ?_⟩
  obtain ⟨wake, hwake⟩ := Option.isSome_iff_exists.mp hwake
  obtain ⟨r, _, hready | ⟨cause, hfailed⟩⟩ := hsame 1 wake hwake
  · rw [hready 3 a ha, ← hready 1 _ htold]
  · cases hfailed 1 _ htold

end Manager

end WakeRouter
