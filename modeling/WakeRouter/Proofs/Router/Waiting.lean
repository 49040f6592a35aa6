import WakeRouter.Proofs.Router.Callers

/-!
# Requests that wait

The caller of a request that waits has not been told anything yet: whoever hears something is
attended to in the same step.  With whose callers the callers are, this is what is known of
every router that has come about in a run.
-/

namespace WakeRouter

namespace Manager

variable {m m' : Manager}

/-- A caller waits until it is told something, if it does not go away. -/
theorem pending_of_step {e : Event} (hstep : m.step e = some m') {c : CallerId}
    {caller : Caller} (hcaller : m.callers.find? c = some caller) (hpending : caller.isPending)
    (hstays : e ≠ .leave c) :
    ∃ caller', m'.callers.find? c = some caller' ∧
      (caller'.isPending ∨ Router.subject? e = some c ∧ caller'.answer? ≠ none) := by
  have hmove := callerMove_of_step hstep c
  rw [hcaller] at hmove
  generalize m'.callers.find? c = after at hmove
  cases hmove with
  | kept => exact ⟨caller, rfl, .inl hpending⟩
  | undescribed | refused | direct | hears => exact ⟨_, rfl, .inr ⟨rfl, by simp [Caller.answer?]⟩⟩
  | described nodes =>
      refine ⟨_, rfl, ?_⟩
      unfold reception
      split
      · exact .inl rfl
      split
      · exact .inr ⟨rfl, by simp [Caller.answer?]⟩
      · exact .inl rfl
  | waits => exact ⟨_, rfl, .inl rfl⟩
  | cancelled => exact ⟨_, rfl, .inl hpending⟩
  | leaves => exact absurd rfl hstays

/-- The caller waits in the second manager if it waits in the first. -/
def Spares (m m' : Manager) (c : CallerId) : Prop :=
  ∀ caller, m.callers.find? c = some caller → caller.isPending →
    ∃ caller', m'.callers.find? c = some caller' ∧ caller'.isPending

theorem spares_of_callers {c : CallerId} (hcallers : m'.callers = m.callers) : m.Spares m' c :=
  fun caller hcaller hpending => ⟨caller, hcallers ▸ hcaller, hpending⟩

theorem Spares.trans {m'' : Manager} {c : CallerId} (hm : m.Spares m' c) (hm' : m'.Spares m'' c) :
    m.Spares m'' c := by
  intro caller hcaller hpending
  obtain ⟨caller', hcaller', hpending'⟩ := hm caller hcaller hpending
  exact hm' caller' hcaller' hpending'

theorem spares_of_step {e : Event} (hstep : m.step e = some m') {c : CallerId}
    (hstays : e ≠ .leave c) (hother : Router.subject? e ≠ some c) : m.Spares m' c := by
  intro caller hcaller hpending
  obtain ⟨caller', hcaller', hpending' | ⟨hsubject, _⟩⟩ :=
    pending_of_step hstep hcaller hpending hstays
  · exact ⟨caller', hcaller', hpending'⟩
  · exact absurd hsubject hother

end Manager

namespace Router

variable {r next : Router}

/-- The callers of requests that wait have not been told anything yet. -/
def Pending (r : Router) : Prop :=
  ∀ (x : ExchangeId) (exchange : Exchange) (c : CallerId), r.exchanges[x]? = some exchange →
    exchange.phase = .ensuring c →
    ∃ caller, r.manager.callers.find? c = some caller ∧ caller.isPending

theorem Pending.of_fewer (hr : r.Pending) (hfewer : r.Fewer next)
    (hspares : ∀ (x : ExchangeId) (exchange : Exchange) (c : CallerId),
      next.exchanges[x]? = some exchange → exchange.phase = .ensuring c →
      r.manager.Spares next.manager c) : next.Pending := by
  intro x exchange c hexchange hphase
  have hold := hfewer.exchanges hexchange (by rw [hphase]; rfl)
  obtain ⟨caller, hcaller, hpending⟩ := hr x exchange c hold hphase
  exact hspares x exchange c hexchange hphase caller hcaller hpending

theorem owns_of_ensuring {x : ExchangeId} {exchange : Exchange} {c : CallerId}
    (hexchange : r.exchanges[x]? = some exchange) (hphase : exchange.phase = .ensuring c) :
    r.owns c := by
  have hmem := List.mem_of_getElem? hexchange
  simp only [owns, Bool.or_eq_true, List.any_eq_true]
  exact .inl ⟨exchange, hmem, by simp [Exchange.isEnsuring, hphase]⟩

theorem owns_of_looking {a : AskId} {ask : Ask} {c : CallerId} {since : Instant}
    (hask : r.asks[a]? = some ask) (hphase : ask.phase = .looking c since) : r.owns c := by
  have hmem := List.mem_of_getElem? hask
  simp only [owns, Bool.or_eq_true, List.any_eq_true]
  exact .inr ⟨ask, hmem, isLooking_iff.mpr ⟨since, hphase⟩⟩

/-- A request that goes on waits no more, and nothing happens to callers or questions. -/
theorem exists_dispatch (r : Router) (x : ExchangeId) (exchange : Exchange) (a : Answer) :
    ∃ phase, (∀ c, phase ≠ .ensuring c) ∧
      (r.dispatch x exchange a).exchanges = withPhase r.exchanges x phase ∧
      (r.dispatch x exchange a).manager.callers = r.manager.callers ∧
      (r.dispatch x exchange a).asks = r.asks := by
  have hforward : ∀ address c, exchange.forward r.port address ≠ .ensuring c := by
    intro address c hphase
    have hsent := isSent_forward exchange r.port address
    rw [hphase] at hsent
    cases hsent
  cases a with
  | error cause => exact ⟨.refused (.ofError exchange.key cause), by simp, rfl, rfl, rfl⟩
  | address address => exact ⟨_, hforward address, rfl, rfl, rfl⟩
  | record s => exact ⟨_, hforward s.address, rfl, rfl, rfl⟩

/-- Who has an answer is attended to. -/
theorem pending_attend (hr : r.Sound) {c : CallerId}
    (hwaits : ∀ {x : ExchangeId} {exchange : Exchange} {c' : CallerId},
      r.exchanges[x]? = some exchange → exchange.phase = .ensuring c' →
      ∃ caller, r.manager.callers.find? c' = some caller ∧
        (caller.isPending ∨ c' = c ∧ caller.answer? ≠ none)) : (r.attend c).Pending := by
  have hothers : ∀ {x : ExchangeId} {exchange : Exchange} {c' : CallerId},
      r.exchanges[x]? = some exchange → exchange.phase = .ensuring c' → c' ≠ c →
      ∃ caller, r.manager.callers.find? c' = some caller ∧ caller.isPending := by
    intro x exchange c' hexchange hphase hne
    obtain ⟨caller, hcaller, hpending | ⟨hsame, _⟩⟩ := hwaits hexchange hphase
    · exact ⟨caller, hcaller, hpending⟩
    · exact absurd hsame hne
  have hattended := attended r c
  generalize r.attend c = next at hattended
  cases hattended with
  | aside hnothing =>
      intro x exchange c' hexchange hphase
      obtain ⟨caller, hcaller, hpending | ⟨rfl, hanswered⟩⟩ := hwaits hexchange hphase
      · exact ⟨caller, hcaller, hpending⟩
      rcases hnothing with hnone | hnobody
      · rw [hcaller, Option.bind_some] at hnone
        exact absurd hnone hanswered
      · rw [owns_of_ensuring hexchange hphase] at hnobody
        cases hnobody
  | @dispatched y other a hanswer hother hphase =>
      intro x exchange c' hexchange hwaiting
      obtain ⟨phase, hpast, hexchanges, hcallers, _⟩ := exists_dispatch r y other a
      rw [hexchanges, getElem?_withPhase] at hexchange
      rw [hcallers]
      split at hexchange
      next =>
        obtain ⟨_, _, rfl⟩ := Option.map_eq_some_iff.mp hexchange
        exact absurd hwaiting (hpast c')
      next hne =>
        apply hothers hexchange hwaiting
        rintro rfl
        exact hne (hr.distinct hexchange hwaiting hother hphase)
  | told hanswer hexchanges =>
      intro x exchange c' hexchange hphase
      apply hothers hexchange hphase
      rintro rfl
      exact hexchanges exchange (List.mem_of_getElem? hexchange) hphase

theorem spares_giveUp (r : Router) {c c' : CallerId} (hne : c' ≠ c) :
    r.manager.Spares (r.giveUp c).manager c' := by
  show r.manager.Spares ((r.manager.step (.leave c)).getD r.manager) c'
  cases hleave : r.manager.step (.leave c) with
  | none => exact Manager.spares_of_callers rfl
  | some m => exact Manager.spares_of_step hleave (by simpa using Ne.symm hne) (by simp [subject?])

theorem spares_shutDown (r : Router) (c : CallerId) : r.manager.Spares r.shutDown.manager c :=
  r.shutDown_induction (P := fun m => r.manager.Spares m c) (Manager.spares_of_callers rfl)
    fun hm hcancel => hm.trans (Manager.spares_of_step hcancel (by simp) (by simp [subject?]))

theorem spares_upkeep {e : Upkeep.Event} {u : Upkeep} (hother : ∀ heard, e ≠ .manager heard)
    (hu : r.upkeep.step e = some u) (c : CallerId) : r.manager.Spares u.manager c := by
  rcases Upkeep.manager_of_step hu with hsame | ⟨heard, hheard, rfl | hpaused⟩
  · exact Manager.spares_of_callers (congrArg Manager.callers hsame)
  · exact absurd rfl (hother heard)
  · obtain ⟨_, _, key, _, _, _, _, _, rfl⟩ := hpaused
    exact Manager.spares_of_step hheard (by simp) (by simp [subject?])

theorem Pending.request (hr : r.Pending) {c : CallerId} (hfresh : r.manager.callers.find? c = none)
    (request : Http.Request) (client? : Option Net.Ip) (upgradable : Bool) :
    (r.request c request client? upgradable).Pending := by
  unfold Router.request
  split
  next =>
    exact hr.of_fewer (fewer_request rfl rfl rfl) fun _ _ _ _ _ => Manager.spares_of_callers rfl
  next key _ =>
    have hstep : r.manager.step (.ensure c key r.wakeTimeout r.stopping) = some _ :=
      (Manager.Move.ensure hfresh).step_eq
    intro x exchange c' hexchange hphase
    rcases getElem?_concat hexchange with hold | ⟨_, rfl⟩
    · obtain ⟨caller, hcaller, hpending⟩ := hr x exchange c' hold hphase
      exact Manager.spares_of_step hstep (by simp) (by simp [subject?]) caller hcaller hpending
    · obtain rfl := ExchangePhase.ensuring.inj hphase
      refine ⟨_, (Manager.find?_callers_arrive hfresh c key _ _).trans (if_pos rfl), ?_⟩
      unfold Manager.reception Caller.isPending
      cases r.manager.records.find? key <;> rfl

theorem Pending.ask (hr : r.Pending) (hsound : r.Sound) (hm : r.manager.Reachable) {c : CallerId}
    (hfresh : r.manager.callers.find? c = none) (method : String) (uri : Http.Uri) :
    (r.ask c method uri).Pending := by
  cases hquestion : Ask.question? method uri with
  | error verdict =>
      rw [ask_of_error hquestion]
      exact hr.of_fewer (fewer_ask rfl rfl rfl) fun _ _ _ _ _ => Manager.spares_of_callers rfl
  | ok domain =>
      rw [ask_of_ok hquestion]
      have hstep : r.manager.step (.lookup c domain) = some _ :=
        (Manager.Move.lookup hfresh).step_eq
      apply pending_attend (hsound.withQuestion hm hfresh method domain)
      intro x exchange c' hexchange hphase
      obtain ⟨caller, hcaller, hpending⟩ := hr x exchange c' hexchange hphase
      obtain ⟨caller', hcaller', hpending'⟩ :=
        Manager.spares_of_step hstep (by simp) (by simp [subject?]) caller hcaller hpending
      exact ⟨caller', hcaller', .inl hpending'⟩

theorem Sound.ne_of_looking (hr : r.Sound) {a : AskId} {ask : Ask} {c : CallerId} {since : Instant}
    (hask : r.asks[a]? = some ask) (hlooks : ask.phase = .looking c since) {x : ExchangeId}
    {exchange : Exchange} {c' : CallerId} (hexchange : r.exchanges[x]? = some exchange)
    (hphase : exchange.phase = .ensuring c') : c' ≠ c := by
  rintro rfl
  obtain ⟨_, caller, timeout, hcaller, _, hpurpose⟩ := hr.ensuring hexchange hphase
  obtain ⟨caller', hcaller', hpurpose'⟩ := hr.looking hask hlooks
  obtain rfl := Option.some.inj (hcaller.symm.trans hcaller')
  rw [hpurpose] at hpurpose'
  cases hpurpose'

theorem Pending.step (hr : r.Pending) (hsound : r.Sound) (hm : r.manager.Reachable) {e : Event}
    (hstep : r.step e = some next) : next.Pending := by
  cases move_of_step hstep with
  | @heard e m c hheard hsubject =>
      have hrest : (r.withManager m).Sound := hsound.of_fewer hm.consistent (fewer_of_same rfl rfl)
        (Manager.reaches_of_step hheard)
      apply pending_attend hrest
      intro x exchange c' hexchange hphase
      obtain ⟨caller, hcaller, hpending⟩ := hr x exchange c' hexchange hphase
      have hstays : e ≠ .leave c' := by
        rintro rfl
        cases hsubject
      obtain ⟨caller', hcaller', hpending'⟩ :=
        Manager.pending_of_step hheard hcaller hpending hstays
      refine ⟨caller', hcaller', hpending'.imp_right fun h => ⟨?_, h.2⟩⟩
      exact Option.some.inj (h.1.symm.trans hsubject)
  | @unheard e m hheard hsubject hfree =>
      refine hr.of_fewer (fewer_of_same rfl rfl) fun x exchange c hexchange hphase => ?_
      refine Manager.spares_of_step hheard ?_ (by simp [hsubject])
      rintro rfl
      have howns : r.owns c := owns_of_ensuring hexchange hphase
      rw [hfree c rfl] at howns
      cases howns
  | watched hother hu =>
      exact hr.of_fewer (fewer_of_same rfl rfl) fun _ _ c _ _ => spares_upkeep hother hu c
  | shutDown => exact hr.of_fewer (fewer_of_same rfl rfl) fun _ _ c _ _ => spares_shutDown r c
  | @request c request client? upgradable hfresh =>
      exact hr.request hfresh request client? upgradable
  | @replied x exchange sent reply _ hphase =>
      have hover := dependsOnKey_conclude hphase reply
      refine hr.of_fewer (fewer_of_exchange x hover rfl rfl) fun _ _ _ _ _ => ?_
      exact Manager.spares_of_callers rfl
  | @close x | @hangUp x =>
      refine hr.of_fewer (fewer_of_exchange x rfl rfl rfl) fun _ _ _ _ _ => ?_
      exact Manager.spares_of_callers rfl
  | @abandon x exchange c hexchange hphase =>
      have hfewer : r.Fewer ((r.giveUp c).setExchange x .dropped) :=
        fewer_of_exchange x rfl rfl rfl
      refine hr.of_fewer hfewer fun y other c' hother hwaits => spares_giveUp r ?_
      rintro rfl
      have hold := hfewer.exchanges hother (by rw [hwaits]; rfl)
      obtain rfl := hsound.distinct hold hwaits hexchange hphase
      have hdropped : (withPhase r.exchanges y .dropped)[y]? = some other := hother
      rw [getElem?_withPhase, if_pos rfl, hold] at hdropped
      have hphase' := congrArg Exchange.phase (Option.some.inj hdropped)
      rw [hwaits] at hphase'
      cases hphase'
  | @ask c method uri hfresh => exact hr.ask hsound hm hfresh method uri
  | @expire a ask c since hask hphase | @dropAsk a ask c since hask hphase =>
      refine hr.of_fewer (fewer_of_ask a rfl rfl rfl) fun x exchange c' hexchange hwaits => ?_
      exact spares_giveUp r (hsound.ne_of_looking hask hphase hexchange hwaits)

/-! ## Runs -/

/-- What holds of every router that has come about in a run. -/
structure Known (r : Router) : Prop where
  reachable : r.manager.Reachable
  sound : r.Sound
  pending : r.Pending

theorem known_start (resumeDeadline : Duration) (port : UInt16) (wakeTimeout : Duration) :
    (start resumeDeadline port wakeTimeout).Known := by
  refine ⟨⟨resumeDeadline, [], rfl⟩, ⟨?_, ?_, ?_, ?_⟩, ?_⟩
  · intro x exchange c hexchange
    simp [start] at hexchange
  · intro x y exchange other c hexchange
    simp [start] at hexchange
  · intro x exchange key hexchange
    simp [start] at hexchange
  · intro a ask c since hask
    simp [start] at hask
  · intro x exchange c hexchange
    simp [start] at hexchange

theorem Known.step (hr : r.Known) {e : Event} (hstep : r.step e = some next) : next.Known :=
  ⟨hr.reachable.reaches (reaches_of_step hstep), hr.sound.step hr.reachable hstep,
    hr.pending.step hr.sound hr.reachable hstep⟩

end Router

end WakeRouter
