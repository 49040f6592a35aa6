import WakeRouter.Proofs.Manager.Episodes

/-!
# A caller that gives up

How long a caller waits for a wake is its own affair.  `Manager.SameBut` relates two
managers that differ in the terms of one caller and in what it was told at most.  What the
others do keeps them so, and so does what the caller does once it waits: it looks whether
its wait is over, it is cancelled, or it goes away.
-/

namespace WakeRouter

/-! ## What a caller's patience leaves alone -/

/-- A purpose, less the time that the caller would wait. -/
def Purpose.blur : Purpose → Purpose
  | .lookup => .lookup
  | .ensure _ => .ensure .zero

/-- How far a caller has come, less what it was told and whether it is still there. -/
def CallerPhase.blur : CallerPhase → CallerPhase
  | .describing => .describing
  | .found => .found
  | .waiting _ | .answered _ | .left => .left

def Caller.blur (caller : Caller) : Caller :=
  { caller with purpose := caller.purpose.blur, cancelled := false, phase := caller.phase.blur }

theorem CallerPhase.eq_of_blur {phase phase' : CallerPhase} (hblur : phase'.blur = phase.blur) :
    (phase = .describing → phase' = .describing) ∧ (phase = .found → phase' = .found) := by
  constructor
  · rintro rfl
    cases phase' <;> simp_all [CallerPhase.blur]
  · rintro rfl
    cases phase' <;> simp_all [CallerPhase.blur]

theorem Caller.isPast_iff_blur {caller : Caller} :
    caller.IsPast ↔ caller.phase.blur = .left := by
  unfold Caller.IsPast
  cases caller.phase <;> simp [CallerPhase.blur]

theorem Caller.blur_facts {caller caller' : Caller} (hblur : caller'.blur = caller.blur) :
    caller'.key = caller.key ∧ caller'.purpose.blur = caller.purpose.blur ∧
      caller'.phase.blur = caller.phase.blur := by
  simp only [Caller.blur, Caller.mk.injEq, true_and] at hblur
  exact hblur

namespace Manager

/-- The caller looks, is cancelled or goes away. -/
def Event.isPatience (c : CallerId) : Event → Bool
  | .poll c' | .cancel c' | .leave c' => c' = c
  | _ => false

/-- The event, less the terms on which the caller comes. -/
def Event.blur (c : CallerId) : Event → Event
  | .ensure c' key timeout cancelled =>
    if c' = c then .ensure c' key .zero false else .ensure c' key timeout cancelled
  | e => e

theorem Event.blur_blur (c : CallerId) (e : Event) : (e.blur c).blur c = e.blur c := by
  cases e with
  | ensure c' key timeout cancelled => by_cases h : c' = c <;> simp [Event.blur, h]
  | _ => rfl

theorem Event.isPatience_blur (c : CallerId) (e : Event) :
    (e.blur c).isPatience c = e.isPatience c := by
  cases e with
  | ensure c' key timeout cancelled => by_cases h : c' = c <;> simp [Event.blur, h, isPatience]
  | _ => rfl

/-- Tables of callers that agree but for the patience of one. -/
structure Alike (c : CallerId) (s t : Table CallerId Caller) : Prop where
  others : ∀ c', c' ≠ c → t.find? c' = s.find? c'
  own : (t.find? c).map Caller.blur = (s.find? c).map Caller.blur

namespace Alike

variable {c c' : CallerId} {s t : Table CallerId Caller}

theorem refl (c : CallerId) (s : Table CallerId Caller) : Alike c s s :=
  ⟨fun _ _ => rfl, rfl⟩

theorem symm (h : Alike c s t) : Alike c t s :=
  ⟨fun c' hne => (h.others c' hne).symm, h.own.symm⟩

theorem trans {u : Table CallerId Caller} (h : Alike c s t) (h' : Alike c t u) : Alike c s u :=
  ⟨fun c' hne => (h'.others c' hne).trans (h.others c' hne), h'.own.trans h.own⟩

theorem find (h : Alike c s t) {caller : Caller} (hcaller : s.find? c' = some caller) :
    ∃ caller', t.find? c' = some caller' ∧ caller'.blur = caller.blur ∧
      (c' ≠ c → caller' = caller) := by
  by_cases hc : c' = c
  · subst c'
    have hown := h.own
    rw [hcaller, Option.map_some, Option.map_eq_some_iff] at hown
    obtain ⟨caller', hcaller', hblur⟩ := hown
    exact ⟨caller', hcaller', hblur, fun hne => absurd rfl hne⟩
  · exact ⟨caller, (h.others c' hc).trans hcaller, rfl, fun _ => rfl⟩

theorem fresh (h : Alike c s t) (hfresh : s.find? c' = none) : t.find? c' = none := by
  cases ht : t.find? c' with
  | none => rfl
  | some caller =>
      obtain ⟨caller', hcaller', _⟩ := h.symm.find ht
      rw [hfresh] at hcaller'
      cases hcaller'

theorem addNew (h : Alike c s t) (hfresh : s.find? c' = none) {caller caller' : Caller}
    (hblur : caller'.blur = caller.blur) (hsame : c' ≠ c → caller' = caller) :
    Alike c (s.addNew c' caller) (t.addNew c' caller') := by
  constructor
  case others =>
    intro k hne
    rw [Table.find?_addNew_of_none hfresh, Table.find?_addNew_of_none (h.fresh hfresh)]
    split
    next hk => rw [hsame (hk ▸ hne)]
    next => exact h.others k hne
  case own =>
    rw [Table.find?_addNew_of_none hfresh, Table.find?_addNew_of_none (h.fresh hfresh)]
    split
    · rw [Option.map_some, Option.map_some, hblur]
    · exact h.own

/-- Both callers change in a way that keeps what is not a matter of patience. -/
theorem modify (h : Alike c s t) {f g : Caller → Caller} (hother : c' ≠ c → f = g)
    (hblur : ∀ caller caller' : Caller, caller'.blur = caller.blur →
      (g caller').blur = (f caller).blur) :
    Alike c (s.modify c' f) (t.modify c' g) := by
  constructor
  case others =>
    intro k hne
    rw [Table.find?_modify, Table.find?_modify, h.others k hne]
    split
    next hk => rw [hother (hk ▸ hne)]
    next => rfl
  case own =>
    rw [Table.find?_modify, Table.find?_modify]
    split
    · cases hs : s.find? c with
      | none => rw [h.fresh hs]; rfl
      | some caller =>
          obtain ⟨caller', ht, hsame, _⟩ := h.find hs
          simp [ht, hblur caller caller' hsame]
    · exact h.own

theorem setPhase (h : Alike c s t) {phase phase' : CallerPhase}
    (hother : c' ≠ c → phase = phase') (hblur : phase'.blur = phase.blur) :
    Alike c (s.modify c' fun caller => { caller with phase := phase })
      (t.modify c' fun caller => { caller with phase := phase' }) := by
  apply h.modify
  · intro hne
    rw [hother hne]
  · intro caller caller' hsame
    simp only [Caller.blur, Caller.mk.injEq, true_and] at hsame ⊢
    exact ⟨hsame.1, hsame.2.1, hblur⟩

theorem cancel (h : Alike c s t) :
    Alike c (s.modify c' fun caller => { caller with cancelled := true })
      (t.modify c' fun caller => { caller with cancelled := true }) := by
  apply h.modify
  · intro _
    rfl
  · intro caller caller' hsame
    simpa [Caller.blur] using hsame

end Alike

/-! ## Steps -/

variable {m next : Manager} {c : CallerId} {t : Table CallerId Caller}

theorem reception_blur (m : Manager) (key : String) {purpose purpose' : Purpose}
    (hblur : purpose'.blur = purpose.blur) :
    m.reception key purpose' = m.reception key purpose := by
  unfold reception
  cases purpose <;> cases purpose' <;> simp_all [Purpose.blur]

theorem Alike.arrive (halike : Alike c m.callers t) {c' : CallerId}
    (hfresh : m.callers.find? c' = none) (key : String) {purpose purpose' : Purpose}
    {cancelled cancelled' : Bool} (hblur : purpose'.blur = purpose.blur)
    (hother : c' ≠ c → purpose' = purpose ∧ cancelled' = cancelled) :
    Alike c (m.arrive c' key purpose cancelled).callers
      (({ m with callers := t } : Manager).arrive c' key purpose' cancelled').callers := by
  have hreception := reception_blur m key hblur
  apply halike.addNew hfresh
  · simp only [Caller.blur, hblur]
    exact congrArg _ (congrArg _ hreception)
  · intro hne
    obtain ⟨rfl, rfl⟩ := hother hne
    rfl

theorem Alike.found (halike : Alike c m.callers t) {c' : CallerId} {caller : Caller}
    {timeout : Duration} (hcaller : m.callers.find? c' = some caller)
    (hphase : caller.phase = .found) (hpurpose : caller.purpose = .ensure timeout) :
    ∃ caller' timeout', t.find? c' = some caller' ∧ caller'.key = caller.key ∧
      caller'.phase = .found ∧ caller'.purpose = .ensure timeout' ∧
      (c' ≠ c → timeout' = timeout) := by
  obtain ⟨caller', hcaller', hblur, hsame⟩ := halike.find hcaller
  obtain ⟨hkey, hpurposes, hphases⟩ := Caller.blur_facts hblur
  have hphase' := (CallerPhase.eq_of_blur hphases).2 hphase
  rw [hpurpose] at hpurposes
  cases hpurpose' : caller'.purpose with
  | lookup => simp [hpurpose', Purpose.blur] at hpurposes
  | ensure timeout' =>
      refine ⟨caller', timeout', hcaller', hkey, hphase', hpurpose', fun hne => ?_⟩
      rw [hsame hne, hpurpose, Purpose.ensure.injEq] at hpurpose'
      exact hpurpose'.symm

theorem finish_withCallers (m : Manager) (t : Table CallerId Caller) (key : String)
    (result : Acknowledgement) :
    ({ m with callers := t } : Manager).finish key result =
      { m.finish key result with callers := t } := by
  unfold finish
  cases m.records.find? key with
  | none => rfl
  | some r =>
      obtain ⟨_, _, state, _, wake?, _⟩ := r
      cases state <;> cases wake? <;> rfl

/-- What happens in the one manager and is not the caller's own patience happens in the
other as well. -/
theorem Alike.move (halike : Alike c m.callers t) {e : Event} (hmove : m.Move e next)
    (hother : e.isPatience c = false) :
    ∃ u, ({ m with callers := t } : Manager).Move e { next with callers := u } ∧
      Alike c next.callers u := by
  cases hmove with
  | elapse d => exact ⟨t, .elapse d, halike⟩
  | lookup hfresh =>
      exact ⟨_, .lookup (halike.fresh hfresh), halike.arrive hfresh _ rfl fun _ => ⟨rfl, rfl⟩⟩
  | ensure hfresh =>
      exact ⟨_, .ensure (halike.fresh hfresh), halike.arrive hfresh _ rfl fun _ => ⟨rfl, rfl⟩⟩
  | @undescribed c' caller cause hcaller hphase =>
      obtain ⟨caller', hcaller', hblur, _⟩ := halike.find hcaller
      obtain ⟨hkey, _, hphases⟩ := Caller.blur_facts hblur
      have hphase' := (CallerPhase.eq_of_blur hphases).1 hphase
      rw [← hkey]
      exact ⟨_, .undescribed hcaller' hphase', halike.setPhase (fun _ => rfl) rfl⟩
  | @described c' caller nodes hcaller hphase =>
      obtain ⟨caller', hcaller', hblur, _⟩ := halike.find hcaller
      obtain ⟨hkey, hpurpose, hphases⟩ := Caller.blur_facts hblur
      have hphase' := (CallerPhase.eq_of_blur hphases).1 hphase
      rw [← hkey, ← reception_blur _ _ hpurpose]
      exact ⟨_, .described hcaller' hphase', halike.setPhase (fun _ => rfl) rfl⟩
  | refuse hcaller hphase hpurpose hrecord =>
      obtain ⟨caller', timeout', hcaller', hkey, hphase', hpurpose', _⟩ :=
        halike.found hcaller hphase hpurpose
      rw [← hkey] at hrecord ⊢
      exact ⟨_, .refuse hcaller' hphase' hpurpose' hrecord, halike.setPhase (fun _ => rfl) rfl⟩
  | direct hcaller hphase hpurpose hrecord hstate =>
      obtain ⟨caller', timeout', hcaller', hkey, hphase', hpurpose', _⟩ :=
        halike.found hcaller hphase hpurpose
      rw [← hkey] at hrecord
      exact ⟨_, .direct hcaller' hphase' hpurpose' hrecord hstate,
        halike.setPhase (fun _ => rfl) rfl⟩
  | join hwants hpurpose hwake =>
      obtain ⟨hcaller, hphase, hrecord, hasleep, hknown⟩ := hwants
      obtain ⟨caller', timeout', hcaller', hkey, hphase', hpurpose', htimeout⟩ :=
        halike.found hcaller hphase hpurpose
      rw [← hkey] at hrecord
      exact ⟨_, .join ⟨hcaller', hphase', hrecord, hasleep, hknown⟩ hpurpose' hwake,
        halike.setPhase (fun hne => by rw [htimeout hne]) rfl⟩
  | begin hwants hpurpose hwake =>
      obtain ⟨hcaller, hphase, hrecord, hasleep, hknown⟩ := hwants
      obtain ⟨caller', timeout', hcaller', hkey, hphase', hpurpose', htimeout⟩ :=
        halike.found hcaller hphase hpurpose
      rw [← hkey] at hrecord ⊢
      exact ⟨_, .begin ⟨hcaller', hphase', hrecord, hasleep, hknown⟩ hpurpose' hwake,
        halike.setPhase (fun hne => by rw [htimeout hne]) rfl⟩
  | @hear c' caller w a hcaller hphase hverdict =>
      have hne : c' ≠ c := by simpa [Event.isPatience] using hother
      have hcaller' := (halike.others c' hne).trans hcaller
      exact ⟨_, .hear hcaller' hphase hverdict, halike.setPhase (fun _ => rfl) rfl⟩
  | @wait c' caller w hcaller hphase hverdict =>
      have hne : c' ≠ c := by simpa [Event.isPatience] using hother
      exact ⟨t, .wait ((halike.others c' hne).trans hcaller) hphase hverdict, halike⟩
  | @cancel c' caller hcaller hpending =>
      have hne : c' ≠ c := by simpa [Event.isPatience] using hother
      exact ⟨_, .cancel ((halike.others c' hne).trans hcaller) hpending, halike.cancel⟩
  | @leave c' caller hcaller hpending =>
      have hne : c' ≠ c := by simpa [Event.isPatience] using hother
      exact ⟨_, .leave ((halike.others c' hne).trans hcaller) hpending,
        halike.setPhase (fun _ => rfl) rfl⟩
  | resume hwake hstage => exact ⟨t, .resume hwake hstage, halike⟩
  | resumed hwake hstage => exact ⟨t, .resumed hwake hstage, halike⟩
  | overrun hwake hstage hlate => exact ⟨t, .overrun hwake hstage hlate, halike⟩
  | brokeDown hwake hstage => exact ⟨t, .brokeDown hwake hstage, halike⟩
  | @deliver e wake result hwake hstage =>
      refine ⟨t, ?_, by simpa using halike⟩
      rw [← finish_withCallers]
      exact .deliver hwake hstage
  | touch key => exact ⟨t, .touch key, halike⟩
  | markPaused key => exact ⟨t, .markPaused key, halike⟩

theorem Event.eq_or_ensure {e e' : Event} (hblur : e'.blur c = e.blur c) :
    e' = e ∨ ∃ key timeout cancelled timeout' cancelled',
      e = .ensure c key timeout cancelled ∧ e' = .ensure c key timeout' cancelled' := by
  cases e with
  | ensure c₁ key timeout cancelled =>
      cases e' with
      | ensure c₂ key' timeout' cancelled' =>
          by_cases h₁ : c₁ = c <;> by_cases h₂ : c₂ = c
          · subst h₁ h₂
            simp only [Event.blur, if_true, Event.ensure.injEq, true_and, and_true] at hblur
            subst hblur
            exact .inr ⟨_, _, _, _, _, rfl, rfl⟩
          · simp [Event.blur, h₁, h₂] at hblur
          · simp [Event.blur, h₁, h₂, Ne.symm h₁] at hblur
          · simp only [Event.blur, if_neg h₁, if_neg h₂] at hblur
            exact .inl hblur
      | _ => by_cases h₁ : c₁ = c <;> simp [Event.blur, h₁] at hblur
  | _ =>
      cases e' with
      | ensure c₂ key' timeout' cancelled' =>
          by_cases h₂ : c₂ = c <;> simp [Event.blur, h₂] at hblur
      | _ => exact .inl hblur

/-- Managers that agree but for the patience of one caller. -/
structure SameBut (c : CallerId) (m m' : Manager) : Prop where
  core : m' = { m with callers := m'.callers }
  callers : Alike c m.callers m'.callers

theorem SameBut.refl (c : CallerId) (m : Manager) : SameBut c m m :=
  ⟨rfl, .refl c m.callers⟩

theorem SameBut.symm {m m' : Manager} (h : SameBut c m m') : SameBut c m' m := by
  obtain ⟨hcore, hcallers⟩ := h
  refine ⟨?_, hcallers.symm⟩
  rw [hcore]

theorem SameBut.trans {m m' m'' : Manager} (h : SameBut c m m') (h' : SameBut c m' m'') :
    SameBut c m m'' := by
  refine ⟨?_, h.callers.trans h'.callers⟩
  rw [h'.core, h.core]

/-- What is not the caller's patience happens in both managers. -/
theorem SameBut.step {m m' : Manager} (h : SameBut c m m') {e e' : Event}
    (hblur : e'.blur c = e.blur c) (hother : e.isPatience c = false)
    (hstep : m.step e = some next) : ∃ next', m'.step e' = some next' ∧ SameBut c next next' := by
  obtain ⟨hcore, halike⟩ := h
  rw [hcore]
  rcases Event.eq_or_ensure hblur with
    rfl | ⟨key, timeout, cancelled, timeout', cancelled', rfl, rfl⟩
  · obtain ⟨u, hmove, hu⟩ := halike.move (move_of_step hstep) hother
    exact ⟨_, hmove.step_eq, rfl, hu⟩
  · cases move_of_step hstep with
    | ensure hfresh =>
        have hensure : ({ m with callers := m'.callers } : Manager).Move
            (.ensure c key timeout' cancelled') _ := .ensure (halike.fresh hfresh)
        exact ⟨_, hensure.step_eq, rfl, halike.arrive hfresh key rfl fun hne => absurd rfl hne⟩

/-- The caller has looked at the record of its key. -/
def HasLooked (m : Manager) (c : CallerId) : Prop :=
  ∃ caller, m.callers.find? c = some caller ∧ caller.IsPast

theorem SameBut.hasLooked {m m' : Manager} (h : SameBut c m m') (hlooked : m.HasLooked c) :
    m'.HasLooked c := by
  obtain ⟨caller, hcaller, hpast⟩ := hlooked
  obtain ⟨caller', hcaller', hblur, _⟩ := h.callers.find hcaller
  obtain ⟨_, _, hphases⟩ := Caller.blur_facts hblur
  refine ⟨caller', hcaller', Caller.isPast_iff_blur.mpr ?_⟩
  rw [hphases]
  exact Caller.isPast_iff_blur.mp hpast

theorem HasLooked.step (hlooked : m.HasLooked c) {e : Event} (hstep : m.step e = some next) :
    next.HasLooked c := by
  obtain ⟨caller, hcaller, hpast⟩ := hlooked
  obtain ⟨caller', hcaller', hchange⟩ := callerChange_of_step hstep hcaller
  refine ⟨caller', hcaller', ?_⟩
  cases hchange with
  | kept | cancelled => exact hpast
  | looked hlooks => exact absurd hpast hlooks
  | heard | left => simp [Caller.IsPast]

theorem Alike.ofOwn {s : Table CallerId Caller} {caller : Caller} {f : Caller → Caller}
    (hcaller : s.find? c = some caller) (hblur : (f caller).blur = caller.blur) :
    Alike c s (s.modify c f) := by
  constructor
  case others =>
    intro c' hne
    rw [Table.find?_modify, if_neg hne]
  case own =>
    rw [Table.find?_modify, if_pos rfl, hcaller]
    simp [hblur]

theorem sameBut_setPhase {caller : Caller} {phase : CallerPhase}
    (hcaller : m.callers.find? c = some caller) (hblur : phase.blur = caller.phase.blur) :
    SameBut c m (m.setPhase c phase) := by
  refine ⟨rfl, Alike.ofOwn (f := fun caller => { caller with phase := phase }) hcaller ?_⟩
  simp [Caller.blur, hblur]

/-- The caller's patience changes nothing else, except that a caller that goes away before
it has looked at the record does not look any more. -/
theorem sameBut_of_patience {e : Event} (hpatience : e.isPatience c)
    (hlate : e ≠ .leave c ∨ m.HasLooked c) (hstep : m.step e = some next) :
    SameBut c m next := by
  cases move_of_step hstep with
  | @hear c' caller w a hcaller hphase _ =>
      obtain rfl : c' = c := by simpa [Event.isPatience] using hpatience
      exact sameBut_setPhase hcaller (by rw [hphase]; rfl)
  | wait => exact .refl c m
  | @cancel c' caller hcaller _ =>
      obtain rfl : c' = c := by simpa [Event.isPatience] using hpatience
      exact ⟨rfl, Alike.ofOwn (f := fun caller => { caller with cancelled := true }) hcaller rfl⟩
  | @leave c' caller hcaller _ =>
      obtain rfl : c' = c := by simpa [Event.isPatience] using hpatience
      obtain ⟨caller', hcaller', hpast⟩ := hlate.resolve_left (· rfl)
      rw [hcaller, Option.some.injEq] at hcaller'
      subst caller'
      exact sameBut_setPhase hcaller (Caller.isPast_iff_blur.mp hpast).symm
  | _ => cases hpatience

end Manager

end WakeRouter
