import WakeRouter.Proofs.Router.Returns

/-!
# How requests came to where they are

A request without a host is refused at once and stays so.  Any other waits until its caller is
told something, and what that was decides where the request can be from then on.
`Router.Story` says which steps of the run led there.
-/

namespace WakeRouter

namespace Exchange

variable {exchange : Exchange}

/-- No answer of the machine has the request sent anew. -/
theorem phase_of_conclude {reply : Http.Reply} {sent : Http.Request}
    (hconclude : exchange.conclude reply = .forwarded sent) : exchange.phase = .forwarded sent := by
  cases reply with
  | nothing => exact hconclude
  | broken => cases hconclude
  | response upstream =>
      unfold conclude at hconclude
      dsimp only at hconclude
      split at hconclude
      next => split at hconclude <;> cases hconclude
      next => cases hconclude

end Exchange

namespace Router

open Http (Request)

variable {r next : Router} {e : Event} {x : ExchangeId} {exchange : Exchange}
  {t : Run.Transition Router Event}

/-- The request is with its machine after the step. -/
def Contacts (t : Run.Transition Router Event) (x : ExchangeId) (sent : Request) : Prop :=
  ∃ exchange, t.after.exchanges[x]? = some exchange ∧ exchange.phase = .forwarded sent

/-- Nobody has been told anything for the request, and it has not been with its machine. -/
structure Idle (ts : List (Run.Transition Router Event)) (x : ExchangeId) : Prop where
  unheard : ∀ t ∈ ts, ∀ m a, ¬Returns t x m a
  unsent : ∀ t ∈ ts, ∀ sent, ¬Contacts t x sent

/-- How a request came to where it is. -/
inductive Story (ts : List (Run.Transition Router Event)) (port : UInt16) (x : ExchangeId)
    (exchange : Exchange) : Prop
  | noHost (hkey : requestKey? exchange.request.headers exchange.request.uri = none)
      (hphase : exchange.phase = .refused .noHost) (hidle : Idle ts x)
      (hstays : ∀ t ∈ ts, ∀ old, t.before.exchanges[x]? = some old ∨
        t.after.exchanges[x]? = some old → old.phase = .refused .noHost)
  | waits (hkey : requestKey? exchange.request.headers exchange.request.uri = some exchange.key)
      (hphase : (∃ c, exchange.phase = .ensuring c) ∨ exchange.phase = .dropped)
      (hidle : Idle ts x)
  | refused {t : Run.Transition Router Event} {m : Manager} {cause : ManagerError}
      (hkey : requestKey? exchange.request.headers exchange.request.uri = some exchange.key)
      (hphase : exchange.phase = .refused (.ofError exchange.key cause)) (ht : t ∈ ts)
      (hreturns : Returns t x m (.error cause))
      (honly : ∀ t' ∈ ts, ∀ m' a, Returns t' x m' a → a = .error cause)
      (hunsent : ∀ t' ∈ ts, ∀ sent, ¬Contacts t' x sent)
  | served {t : Run.Transition Router Event} {m : Manager} {address : String}
      (hkey : requestKey? exchange.request.headers exchange.request.uri = some exchange.key)
      (hphase : exchange.phase.isServed ∨ exchange.phase = .dropped) (ht : t ∈ ts)
      (hreturns : Returns t x m (.address address))
      (honly : ∀ t' ∈ ts, ∀ m' a, Returns t' x m' a → a = .address address)
      (hsent : ∀ sent, exchange.phase = .forwarded sent →
        exchange.request.forward? (String.ofList (machineAuthority address.toList port))
          exchange.client? = some sent)

variable {ts : List (Run.Transition Router Event)} {port : UInt16}

theorem forall_mem_concat {α : Type} {p : α → Prop} {l : List α} {a : α} (hl : ∀ b ∈ l, p b)
    (ha : p a) : ∀ b ∈ l ++ [a], p b :=
  List.forall_mem_append.mpr ⟨hl, List.forall_mem_singleton.mpr ha⟩

theorem not_returns_of_phase (hexchange : t.before.exchanges[x]? = some exchange)
    (hphase : ∀ c, exchange.phase ≠ .ensuring c) (m : Manager) (a : Answer) :
    ¬Returns t x m a := by
  intro hreturns
  obtain ⟨waiting, c, hwaiting, hensuring⟩ := hreturns.ensuring
  obtain rfl := Option.some.inj (hexchange.symm.trans hwaiting)
  exact hphase c hensuring

theorem not_contacts_of_phase (hexchange : t.after.exchanges[x]? = some exchange)
    (hphase : ∀ sent, exchange.phase ≠ .forwarded sent) (sent : Request) :
    ¬Contacts t x sent := by
  rintro ⟨exchange', hexchange', hsent⟩
  obtain rfl := Option.some.inj (hexchange.symm.trans hexchange')
  exact hphase sent hsent

theorem Idle.concat (hidle : Idle ts x) (hunheard : ∀ m a, ¬Returns t x m a)
    (hunsent : ∀ sent, ¬Contacts t x sent) : Idle (ts ++ [t]) x :=
  ⟨forall_mem_concat hidle.unheard hunheard, forall_mem_concat hidle.unsent hunsent⟩

theorem story_of_waiting (hr : r.Known) (hport : r.port = port) (hstep : r.step e = some next)
    (hexchange : r.exchanges[x]? = some exchange) {c : CallerId}
    (hphase : exchange.phase = .ensuring c)
    (hkey : requestKey? exchange.request.headers exchange.request.uri = some exchange.key)
    (hidle : Idle ts x) :
    ∃ exchange', next.exchanges[x]? = some exchange' ∧
      Story (ts ++ [⟨r, e, next⟩]) port x exchange' := by
  cases waitChange_of_step hr hstep hexchange hphase with
  | waits hnothing _ hnext =>
      have hunsent := not_contacts_of_phase (t := ⟨r, e, next⟩) hnext (by simp [hphase])
      exact ⟨_, hnext, .waits hkey (.inl ⟨c, hphase⟩) (hidle.concat hnothing hunsent)⟩
  | gone _ hnothing hnext =>
      have hunsent := not_contacts_of_phase (t := ⟨r, e, next⟩) hnext (by simp)
      exact ⟨_, hnext, .waits hkey (.inr rfl) (hidle.concat hnothing hunsent)⟩
  | refused hreturns _ hnext =>
      have hunsent := not_contacts_of_phase (t := ⟨r, e, next⟩) hnext (by simp)
      refine ⟨_, hnext, .refused hkey rfl List.mem_concat_self hreturns ?_
        (forall_mem_concat hidle.unsent hunsent)⟩
      exact forall_mem_concat (fun t ht m a hother => absurd hother (hidle.unheard t ht m a))
        fun m a hother => (hreturns.unique hother).2
  | @served m record hreturns _ _ _ _ hnext =>
      have hserved := ExchangePhase.isServed_of_isSent
        (isSent_forward exchange r.port record.address)
      refine ⟨_, hnext, .served hkey (.inl hserved) List.mem_concat_self hreturns ?_ ?_⟩
      · exact forall_mem_concat (fun t ht m a hother => absurd hother (hidle.unheard t ht m a))
          fun m a hother => (hreturns.unique hother).2
      · intro sent hsent
        rw [← hport]
        exact forward?_of_forward exchange r.port record.address sent hsent

theorem phase_of_refused {refusal : Refusal} {phase : ExchangePhase}
    (hchange : r.PhaseChange x exchange e phase) (hphase : exchange.phase = .refused refusal) :
    phase = .refused refusal := by
  cases hchange with
  | kept => exact hphase
  | refused hother | forwarded hother | replied hother | closed hother =>
      cases hphase.symm.trans hother
  | dropped hpending => simp [Exchange.isPending, hphase] at hpending

theorem served_of_change {phase : ExchangePhase} (hchange : r.PhaseChange x exchange e phase)
    (hserved : exchange.phase.isServed ∨ exchange.phase = .dropped) :
    (phase.isServed ∨ phase = .dropped) ∧
      ∀ sent, phase = .forwarded sent → exchange.phase = .forwarded sent := by
  cases hchange with
  | kept => exact ⟨hserved, fun _ hsent => hsent⟩
  | refused hensuring | forwarded hensuring =>
      simp [hensuring, ExchangePhase.isServed] at hserved
  | replied hforwarded reply =>
      exact ⟨.inl (Exchange.isServed_conclude hforwarded reply), fun _ hsent =>
        Exchange.phase_of_conclude hsent⟩
  | closed => exact ⟨.inl rfl, by simp⟩
  | dropped => exact ⟨.inr rfl, by simp⟩

theorem Story.step (hr : r.Known) (hport : r.port = port) (hstory : Story ts port x exchange)
    (hexchange : r.exchanges[x]? = some exchange) (hstep : r.step e = some next) :
    ∃ exchange', next.exchanges[x]? = some exchange' ∧
      Story (ts ++ [⟨r, e, next⟩]) port x exchange' := by
  obtain ⟨phase, hchange, hnext⟩ := exists_phaseChange hstep hexchange
  have hunheard : (∀ c, exchange.phase ≠ .ensuring c) →
      ∀ m a, ¬Returns ⟨r, e, next⟩ x m a := fun hpast =>
    not_returns_of_phase (t := ⟨r, e, next⟩) hexchange hpast
  have hunsent : (∀ sent, phase ≠ .forwarded sent) → ∀ sent, ¬Contacts ⟨r, e, next⟩ x sent :=
    fun hother => not_contacts_of_phase (t := ⟨r, e, next⟩) hnext hother
  cases hstory with
  | noHost hkey hphase hidle hstays =>
      obtain rfl := phase_of_refused hchange hphase
      refine ⟨_, hnext, .noHost hkey rfl
        (hidle.concat (hunheard (by simp [hphase])) (hunsent (by simp))) ?_⟩
      apply forall_mem_concat hstays
      rintro old (hold | hold)
      · obtain rfl := Option.some.inj (hexchange.symm.trans hold)
        exact hphase
      · obtain rfl := Option.some.inj (hnext.symm.trans hold)
        rfl
  | waits hkey hphase hidle =>
      rcases hphase with ⟨c, hphase⟩ | hphase
      · exact story_of_waiting hr hport hstep hexchange hphase hkey hidle
      · obtain rfl : phase = .dropped := by
          cases hchange with
          | kept => exact hphase
          | refused hother | forwarded hother | replied hother | closed hother =>
              cases hphase.symm.trans hother
          | dropped => rfl
        exact ⟨_, hnext, .waits hkey (.inr rfl)
          (hidle.concat (hunheard (by simp [hphase])) (hunsent (by simp)))⟩
  | refused hkey hphase ht hreturns honly hothers =>
      obtain rfl := phase_of_refused hchange hphase
      refine ⟨_, hnext, .refused hkey rfl (List.mem_append_left _ ht) hreturns ?_
        (forall_mem_concat hothers (hunsent (by simp)))⟩
      exact forall_mem_concat honly fun m a hother =>
        absurd hother (hunheard (by simp [hphase]) m a)
  | served hkey hphase ht hreturns honly hsent =>
      obtain ⟨hserved, hback⟩ := served_of_change hchange hphase
      refine ⟨_, hnext, .served hkey hserved (List.mem_append_left _ ht) hreturns ?_
        fun sent hforwarded => hsent sent (hback sent hforwarded)⟩
      apply forall_mem_concat honly
      intro m a hother
      refine absurd hother (hunheard (fun c hensuring => ?_) m a)
      simp [hensuring, ExchangePhase.isServed] at hphase

theorem port_attend (r : Router) (c : CallerId) : (r.attend c).port = r.port := by
  have hattended := attended r c
  generalize r.attend c = next at hattended
  cases hattended with
  | aside | told => rfl
  | @dispatched _ _ a => cases a <;> rfl

theorem port_of_step (hstep : r.step e = some next) : next.port = r.port := by
  cases move_of_step hstep with
  | heard => exact port_attend _ _
  | unheard | watched | replied | close | abandon | hangUp | expire | dropAsk | shutDown => rfl
  | request =>
      unfold Router.request
      split <;> rfl
  | ask =>
      unfold Router.ask
      split
      · rfl
      · exact port_attend _ _

/-- The steps know the exchange by that name, in one phase or another. -/
def KnowAs (ts : List (Run.Transition Router Event)) (x : ExchangeId) (exchange : Exchange) :
    Prop :=
  ∀ t ∈ ts, ∀ old, t.before.exchanges[x]? = some old ∨ t.after.exchanges[x]? = some old →
    ∃ phase, old = { exchange with phase := phase }

/-- The story of a request that has come; none of the steps knows one that has not. -/
def Storied (ts : List (Run.Transition Router Event)) (port : UInt16) (x : ExchangeId) :
    Option Exchange → Prop
  | none => ∀ t ∈ ts, t.before.exchanges[x]? = none ∧ t.after.exchanges[x]? = none
  | some exchange => Story ts port x exchange ∧ KnowAs ts x exchange

theorem KnowAs.step {phase : ExchangePhase} (hknow : KnowAs ts x exchange)
    (hexchange : r.exchanges[x]? = some exchange)
    (hnext : next.exchanges[x]? = some { exchange with phase := phase }) :
    KnowAs (ts ++ [⟨r, e, next⟩]) x { exchange with phase := phase } := by
  apply forall_mem_concat
  · intro t ht old hold
    obtain ⟨phase', rfl⟩ := hknow t ht old hold
    exact ⟨phase', rfl⟩
  · rintro old (hold | hold)
    · obtain rfl := Option.some.inj (hexchange.symm.trans hold)
      exact ⟨exchange.phase, rfl⟩
    · obtain rfl := Option.some.inj (hnext.symm.trans hold)
      exact ⟨phase, rfl⟩

theorem not_returns_of_absent (habsent : t.before.exchanges[x]? = none) (m : Manager)
    (a : Answer) : ¬Returns t x m a := by
  intro hreturns
  obtain ⟨waiting, c, hwaiting, -⟩ := hreturns.ensuring
  cases habsent.symm.trans hwaiting

/-- No step before that in which the request comes was taken for it. -/
theorem story_of_arrival (habsent : ∀ t ∈ ts, t.before.exchanges[x]? = none ∧
      t.after.exchanges[x]? = none) (hnone : r.exchanges[x]? = none)
    (hexchange : next.exchanges[x]? = some exchange) (harrival : Arrival e exchange) :
    Story (ts ++ [⟨r, e, next⟩]) port x exchange := by
  have hidle : Idle ts x := by
    refine ⟨fun t ht => not_returns_of_absent (habsent t ht).1, ?_⟩
    rintro t ht sent ⟨old, hold, -⟩
    cases (habsent t ht).2.symm.trans hold
  have hunheard := not_returns_of_absent (t := ⟨r, e, next⟩) hnone
  have hunsent : (∀ sent, exchange.phase ≠ .forwarded sent) →
      ∀ sent, ¬Contacts ⟨r, e, next⟩ x sent := fun hother =>
    not_contacts_of_phase (t := ⟨r, e, next⟩) hexchange hother
  rcases harrival.phase with ⟨hkey, hphase⟩ | ⟨hkey, c, hphase⟩
  · refine .noHost hkey hphase (hidle.concat hunheard (hunsent (by simp [hphase]))) ?_
    apply forall_mem_concat
    · rintro t ht old (hold | hold)
      · cases (habsent t ht).1.symm.trans hold
      · cases (habsent t ht).2.symm.trans hold
    · rintro old (hold | hold)
      · cases hnone.symm.trans hold
      · obtain rfl := Option.some.inj (hexchange.symm.trans hold)
        exact hphase
  · exact .waits hkey (.inl ⟨c, hphase⟩)
      (hidle.concat hunheard (hunsent (by simp [hphase])))

theorem Storied.step (hr : r.Known) (hport : r.port = port)
    (hstoried : Storied ts port x r.exchanges[x]?) (hstep : r.step e = some next) :
    Storied (ts ++ [⟨r, e, next⟩]) port x next.exchanges[x]? := by
  cases hexchange : r.exchanges[x]? with
  | some exchange =>
      rw [hexchange] at hstoried
      obtain ⟨hstory, hknow⟩ := hstoried
      obtain ⟨phase, -, hnext⟩ := exists_phaseChange hstep hexchange
      obtain ⟨exchange', hnext', hstory'⟩ := hstory.step hr hport hexchange hstep
      obtain rfl := Option.some.inj (hnext.symm.trans hnext')
      rw [hnext]
      exact ⟨hstory', hknow.step hexchange hnext⟩
  | none =>
      have hchange := exchangeChange_of_step hstep x
      rw [hexchange] at hstoried hchange
      generalize hafter : next.exchanges[x]? = after at hchange
      cases hchange with
      | absent => exact forall_mem_concat hstoried ⟨hexchange, hafter⟩
      | arrived harrival =>
          refine ⟨story_of_arrival hstoried hexchange hafter harrival, ?_⟩
          apply forall_mem_concat
          · rintro t ht old (hold | hold)
            · cases (hstoried t ht).1.symm.trans hold
            · cases (hstoried t ht).2.symm.trans hold
          · rintro old (hold | hold)
            · cases hexchange.symm.trans hold
            · obtain rfl := Option.some.inj (hafter.symm.trans hold)
              exact ⟨_, rfl⟩

theorem storied_of_run {deadline wakeTimeout : Duration} {es : List Event}
    (hrun : Run.after? step (start deadline port wakeTimeout) es = some r) (x : ExchangeId) :
    Storied (Run.trail step (start deadline port wakeTimeout) es) port x r.exchanges[x]? := by
  have hall : r.Known ∧ r.port = port ∧
      Storied (Run.trail step (start deadline port wakeTimeout) es) port x r.exchanges[x]? := by
    refine Run.trail_induction (P := fun ts r => r.Known ∧ r.port = port ∧
      Storied ts port x r.exchanges[x]?) ?_ []
      ⟨known_start _ _ _, rfl, by simp [start, Storied]⟩ hrun
    rintro ts r e next ⟨hr, hport, hstoried⟩ hstep
    exact ⟨hr.step hstep, (port_of_step hstep).trans hport, hstoried.step hr hport hstep⟩
  exact hall.2.2

theorem known_of_mem_trail {deadline wakeTimeout : Duration} {es : List Event}
    (ht : t ∈ Run.trail step (start deadline port wakeTimeout) es) :
    t.before.Known ∧ t.before.port = port ∧ t.before.step t.event = some t.after := by
  have hall := Run.before_of_mem_trail (P := fun r => r.Known ∧ r.port = port)
    (fun hr hstep => ⟨hr.1.step hstep, (port_of_step hstep).trans hr.2⟩)
    ⟨known_start _ _ _, rfl⟩ ht
  exact ⟨hall.1.1, hall.1.2, hall.2⟩

end Router

end WakeRouter
