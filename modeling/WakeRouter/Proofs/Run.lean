/-!
# Runs of a system

A system is given by what each event does in each state, and `none` where it cannot happen.
The trail of a run lists its steps; what a statement says about the history of a run, it says
about the trail.
-/

namespace WakeRouter.Run

variable {σ ε : Type} {step : σ → ε → Option σ}

/-- The state after the events, when each of them can happen in its turn. -/
def after? (step : σ → ε → Option σ) (s : σ) : List ε → Option σ
  | [] => some s
  | e :: es => (step s e).bind fun next => after? step next es

/-- The states of a run, up to the first event that cannot happen. -/
def states (step : σ → ε → Option σ) (s : σ) : List ε → List σ
  | [] => [s]
  | e :: es =>
    s ::
      match step s e with
      | some next => states step next es
      | none => []

/-- A member of a list with one more at its end is that one, or a member of the list. -/
theorem split_concat {α : Type} {ts earlier later : List α} {last t : α}
    (hsplit : ts ++ [last] = earlier ++ t :: later) :
    (earlier = ts ∧ t = last ∧ later = []) ∨
      ∃ since, ts = earlier ++ t :: since ∧ later = since ++ [last] := by
  rcases List.eq_nil_or_concat later with rfl | ⟨since, end', rfl⟩
  · obtain ⟨hts, hlast⟩ := List.append_inj' hsplit rfl
    exact .inl ⟨hts.symm, (List.cons.inj hlast).1.symm, rfl⟩
  · have hconcat : earlier ++ t :: since.concat end' = (earlier ++ t :: since) ++ [end'] := by
      simp
    obtain ⟨hts, hlast⟩ := List.append_inj' (hsplit.trans hconcat) rfl
    obtain rfl := (List.cons.inj hlast).1
    exact .inr ⟨since, hts, List.concat_eq_append⟩

structure Transition (σ ε : Type) where
  before : σ
  event : ε
  after : σ

/-- The steps of a run, up to the first event that cannot happen. -/
def trail (step : σ → ε → Option σ) (s : σ) : List ε → List (Transition σ ε)
  | [] => []
  | e :: es =>
    match step s e with
    | some next => ⟨s, e, next⟩ :: trail step next es
    | none => []

theorem states_cons {s next : σ} {e : ε} (hstep : step s e = some next) (es : List ε) :
    states step s (e :: es) = s :: states step next es := by
  simp [states, hstep]

theorem mem_states_last {s last : σ} {es : List ε} (hrun : after? step s es = some last) :
    last ∈ states step s es := by
  induction es generalizing s with
  | nil =>
      obtain rfl := Option.some.inj hrun
      exact List.mem_singleton.mpr rfl
  | cons e es ih =>
      obtain ⟨next, hstep, hrest⟩ := Option.bind_eq_some_iff.mp hrun
      rw [states_cons hstep]
      exact List.mem_cons_of_mem s (ih hrest)

/-- What holds at first, and is kept by the events of the run in the states of the run, holds
after the run. -/
theorem induction {P Q : σ → Prop} {A : ε → Prop}
    (hkept : ∀ {s e next}, P s → Q s → A e → step s e = some next → P next)
    {s last : σ} {es : List ε} (hfirst : P s) (hrun : after? step s es = some last)
    (hstates : ∀ t ∈ states step s es, Q t) (hevents : ∀ e ∈ es, A e) : P last := by
  induction es generalizing s with
  | nil =>
      obtain rfl := Option.some.inj hrun
      exact hfirst
  | cons e es ih =>
      obtain ⟨next, hstep, hrest⟩ := Option.bind_eq_some_iff.mp hrun
      rw [states_cons hstep] at hstates
      have hnext : P next :=
        hkept hfirst (hstates s List.mem_cons_self) (hevents e List.mem_cons_self) hstep
      exact ih hnext hrest (fun t ht => hstates t (List.mem_cons_of_mem s ht))
        fun e' he' => hevents e' (List.mem_cons_of_mem e he')

theorem trail_cons {s next : σ} {e : ε} (hstep : step s e = some next) (es : List ε) :
    trail step s (e :: es) = ⟨s, e, next⟩ :: trail step next es := by
  simp [trail, hstep]

theorem after?_cons {s next : σ} {e : ε} (hstep : step s e = some next) (es : List ε) :
    after? step s (e :: es) = after? step next es := by
  simp [after?, hstep]

theorem after?_append (s : σ) (es later : List ε) :
    after? step s (es ++ later) = (after? step s es).bind fun next => after? step next later := by
  induction es generalizing s with
  | nil => rfl
  | cons e es ih =>
      simp only [List.cons_append, after?]
      cases step s e with
      | none => rfl
      | some next => exact ih next

theorem after?_append_of_run {s next : σ} {es : List ε} (hrun : after? step s es = some next)
    (later : List ε) : after? step s (es ++ later) = after? step next later := by
  rw [after?_append, hrun, Option.bind_some]

theorem trail_append {s next : σ} {es : List ε} (hrun : after? step s es = some next)
    (later : List ε) : trail step s (es ++ later) = trail step s es ++ trail step next later := by
  induction es generalizing s with
  | nil =>
      obtain rfl := Option.some.inj hrun
      rfl
  | cons e es ih =>
      obtain ⟨middle, hstep, hrest⟩ := Option.bind_eq_some_iff.mp hrun
      rw [List.cons_append, trail_cons hstep, trail_cons hstep, ih hrest, List.cons_append]

/-- What holds of the trail and the state at first, and is kept by every step, holds after the
run. -/
theorem trail_induction {P : List (Transition σ ε) → σ → Prop}
    (hkept : ∀ {ts s e next}, P ts s → step s e = some next → P (ts ++ [⟨s, e, next⟩]) next)
    (ts : List (Transition σ ε)) {s last : σ} {es : List ε} (hfirst : P ts s)
    (hrun : after? step s es = some last) : P (ts ++ trail step s es) last := by
  induction es generalizing ts s with
  | nil =>
      obtain rfl := Option.some.inj hrun
      simpa [trail] using hfirst
  | cons e es ih =>
      obtain ⟨next, hstep, hrest⟩ := Option.bind_eq_some_iff.mp hrun
      have hlast := ih _ (hkept hfirst hstep) hrest
      rw [trail_cons hstep]
      simpa [List.append_assoc] using hlast

/-- What holds at first, and is kept by every step, holds after the run. -/
theorem invariant {P : σ → Prop} (hkept : ∀ {s e next}, P s → step s e = some next → P next)
    {s last : σ} {es : List ε} (hfirst : P s) (hrun : after? step s es = some last) : P last :=
  trail_induction (P := fun _ => P) hkept [] hfirst hrun

/-- What holds at first, and is kept by every step, holds before each step of the trail. -/
theorem before_of_mem_trail {P : σ → Prop}
    (hkept : ∀ {s e next}, P s → step s e = some next → P next) {s : σ} (hfirst : P s)
    {es : List ε} {t : Transition σ ε} (ht : t ∈ trail step s es) :
    P t.before ∧ step t.before t.event = some t.after := by
  induction es generalizing s with
  | nil => cases ht
  | cons e es ih =>
      unfold trail at ht
      split at ht
      next next hstep =>
        rcases List.mem_cons.mp ht with rfl | hrest
        · exact ⟨hfirst, hstep⟩
        · exact ih (hkept hfirst hstep) hrest
      next => cases ht

theorem step_of_mem_trail {s : σ} {es : List ε} {t : Transition σ ε}
    (ht : t ∈ trail step s es) : step t.before t.event = some t.after :=
  (before_of_mem_trail (P := fun _ => True) (fun _ _ => trivial) trivial ht).2

/-! ## Events of one kind -/

/-- Some events, all of them allowed, lead from the one state to the other. -/
inductive ReachesBy (step : σ → ε → Option σ) (allowed : ε → Prop) (s : σ) : σ → Prop
  | refl : ReachesBy step allowed s s
  | step {middle last : σ} {e : ε} (hbefore : ReachesBy step allowed s middle)
      (hallowed : allowed e) (hstep : step middle e = some last) : ReachesBy step allowed s last

namespace ReachesBy

variable {allowed allowed' : ε → Prop} {s middle last : σ}

theorem of_step {e : ε} (hallowed : allowed e) (hstep : step s e = some last) :
    ReachesBy step allowed s last :=
  .step .refl hallowed hstep

theorem trans (hs : ReachesBy step allowed s middle)
    (hmiddle : ReachesBy step allowed middle last) : ReachesBy step allowed s last := by
  induction hmiddle with
  | refl => exact hs
  | step _ hallowed hstep ih => exact ih.step hallowed hstep

theorem mono (hallowed : ∀ e, allowed e → allowed' e) (hs : ReachesBy step allowed s last) :
    ReachesBy step allowed' s last := by
  induction hs with
  | refl => exact .refl
  | step _ he hstep ih => exact ih.step (hallowed _ he) hstep

theorem reaches (hs : ReachesBy step allowed s last) : ReachesBy step (fun _ => True) s last :=
  hs.mono fun _ _ => trivial

/-- An allowed event happens, or cannot happen and is left out. -/
theorem getD {e : ε} (hs : ReachesBy step allowed s middle) (hallowed : allowed e) :
    ReachesBy step allowed s ((step middle e).getD middle) := by
  cases hstep : step middle e with
  | none => exact hs
  | some next => exact hs.step hallowed hstep

/-- What holds at first, and is kept by the allowed events, holds at last. -/
theorem invariant {P : σ → Prop}
    (hkept : ∀ {s e next}, P s → allowed e → step s e = some next → P next)
    (hs : ReachesBy step allowed s last) (hfirst : P s) : P last := by
  induction hs with
  | refl => exact hfirst
  | step _ hallowed hstep ih => exact hkept ih hallowed hstep

theorem exists_run (hs : ReachesBy step allowed s last) : ∃ es, after? step s es = some last := by
  induction hs with
  | refl => exact ⟨[], rfl⟩
  | step _ _ hstep ih =>
      obtain ⟨es, hrun⟩ := ih
      exact ⟨es ++ [_], by rw [after?_append, hrun, Option.bind_some, after?, hstep]; rfl⟩

end ReachesBy

end WakeRouter.Run
