import WakeRouter.Proofs.Router.Turns
import WakeRouter.Proofs.Run

/-!
# What becomes of a request

The request of an exchange, and whom it comes from, stay what they are; a step moves the
exchange to another phase at most.  `Router.PhaseChange` lists where to.
-/

namespace WakeRouter

/-- The caller of the request had an address, and nobody gave the request up since. -/
def ExchangePhase.isServed : ExchangePhase → Bool
  | .forwarded _ | .answered _ | .tunnelling _ | .closed _ => true
  | .refused .badAddress | .refused (.unavailable _) | .refused .unexpectedUpgrade => true
  | _ => false

theorem ExchangePhase.isServed_of_isSent {phase : ExchangePhase} (hsent : phase.isSent) :
    phase.isServed := by
  unfold isSent at hsent
  split at hsent
  · rfl
  · rfl
  · cases hsent

theorem Exchange.isServed_conclude {exchange : Exchange} {sent : Http.Request}
    (hphase : exchange.phase = .forwarded sent) (reply : Http.Reply) :
    (exchange.conclude reply).isServed := by
  cases reply with
  | nothing => simp [conclude, hphase, ExchangePhase.isServed]
  | broken => rfl
  | response upstream =>
      unfold conclude
      dsimp only
      split
      next => split <;> rfl
      next => rfl

namespace Router

/-- What a step can do to the phase of an exchange. -/
inductive PhaseChange (r : Router) (x : ExchangeId) (exchange : Exchange) :
    Event → ExchangePhase → Prop
  | kept {e : Event} : PhaseChange r x exchange e exchange.phase
  /-- The caller has an error. -/
  | refused {e : Event} {c : CallerId} (hensuring : exchange.phase = .ensuring c)
      (cause : ManagerError) :
      PhaseChange r x exchange e (.refused (.ofError exchange.key cause))
  /-- The caller has an address. -/
  | forwarded {e : Event} {c : CallerId} (hensuring : exchange.phase = .ensuring c)
      (address : String) : PhaseChange r x exchange e (exchange.forward r.port address)
  | replied {sent : Http.Request} (hforwarded : exchange.phase = .forwarded sent)
      (reply : Http.Reply) : PhaseChange r x exchange (.replied x reply) (exchange.conclude reply)
  | closed {response : Http.Response} (htunnelling : exchange.phase = .tunnelling response) :
      PhaseChange r x exchange (.close x) (.closed response)
  | dropped (hpending : exchange.isPending) : PhaseChange r x exchange (.dropRequest x) .dropped

/-- A request as it comes. -/
structure Arrival (e : Event) (exchange : Exchange) : Prop where
  event : ∃ c, e = .request c exchange.request exchange.client? exchange.upgradable
  phase :
    requestKey? exchange.request.headers exchange.request.uri = none ∧
        exchange.phase = .refused .noHost ∨
      requestKey? exchange.request.headers exchange.request.uri = some exchange.key ∧
        ∃ c, exchange.phase = .ensuring c

/-- What a step can do to the exchange of that name. -/
inductive ExchangeChange (r : Router) (x : ExchangeId) (e : Event) :
    Option Exchange → Option Exchange → Prop
  | absent : ExchangeChange r x e none none
  | arrived {exchange : Exchange} (harrival : Arrival e exchange) :
      ExchangeChange r x e none (some exchange)
  | moved {exchange : Exchange} {phase : ExchangePhase}
      (hphase : r.PhaseChange x exchange e phase) :
      ExchangeChange r x e (some exchange) (some { exchange with phase := phase })

variable {r r' next : Router} {e : Event} {x y : ExchangeId}

theorem exchangeChange_of_same (hexchanges : r'.exchanges = r.exchanges) :
    r.ExchangeChange x e r.exchanges[x]? r'.exchanges[x]? := by
  rw [hexchanges]
  cases r.exchanges[x]? with
  | none => exact .absent
  | some exchange => exact .moved .kept

theorem exchangeChange_withPhase {exchange : Exchange} {phase : ExchangePhase}
    (hexchange : r.exchanges[x]? = some exchange) (hphase : r.PhaseChange x exchange e phase)
    (hexchanges : r'.exchanges = withPhase r.exchanges x phase) :
    r.ExchangeChange y e r.exchanges[y]? r'.exchanges[y]? := by
  rw [hexchanges, getElem?_withPhase]
  split
  next hsame =>
    subst hsame
    rw [hexchange]
    exact .moved hphase
  next => exact exchangeChange_of_same rfl

theorem exchangeChange_concat {exchange : Exchange} (harrival : Arrival e exchange)
    (hexchanges : r'.exchanges = r.exchanges ++ [exchange]) :
    r.ExchangeChange x e r.exchanges[x]? r'.exchanges[x]? := by
  rw [hexchanges]
  rcases Nat.lt_trichotomy x r.exchanges.length with hlt | heq | hgt
  · rw [List.getElem?_append_left hlt]
    exact exchangeChange_of_same rfl
  · subst heq
    rw [List.getElem?_concat_length, List.getElem?_eq_none (Nat.le_refl _)]
    exact .arrived harrival
  · rw [List.getElem?_eq_none (Nat.le_of_lt hgt), List.getElem?_eq_none (by simp; omega)]
    exact .absent

theorem exchangeChange_attend (c : CallerId) (hport : r'.port = r.port)
    (hexchanges : r'.exchanges = r.exchanges) :
    r.ExchangeChange x e r.exchanges[x]? (r'.attend c).exchanges[x]? := by
  have hattended := attended r' c
  generalize r'.attend c = next at hattended
  cases hattended with
  | aside | told => exact exchangeChange_of_same hexchanges
  | @dispatched y exchange a hanswer hexchange hphase =>
      rw [hexchanges] at hexchange
      cases a with
      | error cause =>
          refine exchangeChange_withPhase hexchange (.refused hphase cause) ?_
          rw [← hexchanges]
          rfl
      | address address =>
          refine exchangeChange_withPhase hexchange (.forwarded hphase address) ?_
          rw [← hexchanges, ← hport]
          rfl
      | record s =>
          refine exchangeChange_withPhase hexchange (.forwarded hphase s.address) ?_
          rw [← hexchanges, ← hport]
          rfl

theorem exchangeChange_of_step (hstep : r.step e = some next) (x : ExchangeId) :
    r.ExchangeChange x e r.exchanges[x]? next.exchanges[x]? := by
  cases move_of_step hstep with
  | heard => exact exchangeChange_attend _ rfl rfl
  | unheard | watched | expire | dropAsk | shutDown => exact exchangeChange_of_same rfl
  | @request c request client? upgradable =>
      unfold Router.request
      split
      next hkey => exact exchangeChange_concat ⟨⟨c, rfl⟩, .inl ⟨hkey, rfl⟩⟩ rfl
      next hkey => exact exchangeChange_concat ⟨⟨c, rfl⟩, .inr ⟨hkey, c, rfl⟩⟩ rfl
  | replied hexchange hphase => exact exchangeChange_withPhase hexchange (.replied hphase _) rfl
  | close hexchange hphase => exact exchangeChange_withPhase hexchange (.closed hphase) rfl
  | abandon hexchange hphase =>
      exact exchangeChange_withPhase hexchange (.dropped (by simp [Exchange.isPending, hphase])) rfl
  | hangUp hexchange hphase =>
      exact exchangeChange_withPhase hexchange (.dropped (by simp [Exchange.isPending, hphase])) rfl
  | ask =>
      unfold Router.ask
      split
      next => exact exchangeChange_of_same rfl
      next => exact exchangeChange_attend _ rfl rfl

/-- An exchange stays, in one phase or another. -/
theorem exists_phaseChange (hstep : r.step e = some next) {exchange : Exchange}
    (hexchange : r.exchanges[x]? = some exchange) :
    ∃ phase, r.PhaseChange x exchange e phase ∧
      next.exchanges[x]? = some { exchange with phase := phase } := by
  have hchange := exchangeChange_of_step hstep x
  rw [hexchange] at hchange
  generalize next.exchanges[x]? = after at hchange
  cases hchange with
  | moved hphase => exact ⟨_, hphase, rfl⟩

/-! ## Keys -/

/-- The key is that of the request; one that names no host is refused once and for all. -/
def Keyed (exchange : Exchange) : Prop :=
  requestKey? exchange.request.headers exchange.request.uri = none ∧
      exchange.phase = .refused .noHost ∨
    requestKey? exchange.request.headers exchange.request.uri = some exchange.key ∧
      exchange.phase ≠ .refused .noHost

theorem ne_noHost_of_isServed {phase : ExchangePhase} (hserved : phase.isServed) :
    phase ≠ .refused .noHost := by
  rintro rfl
  cases hserved

theorem ofError_ne_noHost (key : String) (cause : ManagerError) :
    Refusal.ofError key cause ≠ .noHost := by
  unfold Refusal.ofError
  split <;> simp

/-- A request without a host has no other phase to go to. -/
theorem Keyed.change {exchange : Exchange} (hkeyed : Keyed exchange) {phase : ExchangePhase}
    (hphase : r.PhaseChange x exchange e phase) : Keyed { exchange with phase := phase } := by
  have hnamed : exchange.phase ≠ .refused .noHost →
      requestKey? exchange.request.headers exchange.request.uri = some exchange.key := by
    intro hother
    rcases hkeyed with ⟨_, hnone⟩ | ⟨hkey, _⟩
    · exact absurd hnone hother
    · exact hkey
  cases hphase with
  | kept => exact hkeyed
  | refused hensuring cause =>
      have hne := ofError_ne_noHost exchange.key cause
      exact .inr ⟨hnamed (by simp [hensuring]), by simpa using hne⟩
  | forwarded hensuring address =>
      have hserved := ExchangePhase.isServed_of_isSent (isSent_forward exchange r.port address)
      exact .inr ⟨hnamed (by simp [hensuring]), ne_noHost_of_isServed hserved⟩
  | replied hforwarded reply =>
      have hserved := exchange.isServed_conclude hforwarded reply
      exact .inr ⟨hnamed (by simp [hforwarded]), ne_noHost_of_isServed hserved⟩
  | closed htunnelling => exact .inr ⟨hnamed (by simp [htunnelling]), by simp⟩
  | dropped hpending =>
      refine .inr ⟨hnamed fun hrefused => ?_, by simp⟩
      simp [Exchange.isPending, hrefused] at hpending

theorem Arrival.keyed {exchange : Exchange} (harrival : Arrival e exchange) : Keyed exchange :=
  harrival.phase.imp_right fun ⟨hkey, _, hphase⟩ => ⟨hkey, by simp [hphase]⟩

theorem keyed_of_step (hkeyed : ∀ exchange, r.exchanges[x]? = some exchange → Keyed exchange)
    (hstep : r.step e = some next) :
    ∀ exchange, next.exchanges[x]? = some exchange → Keyed exchange := by
  intro exchange hexchange
  have hchange := exchangeChange_of_step hstep x
  rw [hexchange] at hchange
  generalize hbefore : r.exchanges[x]? = before at hchange
  cases hchange with
  | arrived harrival => exact harrival.keyed
  | moved hphase => exact (hkeyed _ hbefore).change hphase

theorem keyed_of_run {deadline : Duration} {port : UInt16} {wakeTimeout : Duration}
    {es : List Event} (hrun : Run.after? step (start deadline port wakeTimeout) es = some r)
    {exchange : Exchange} (hexchange : r.exchanges[x]? = some exchange) : Keyed exchange :=
  Run.trail_induction (P := fun _ r => ∀ exchange, r.exchanges[x]? = some exchange → Keyed exchange)
    keyed_of_step [] (by simp [start]) hrun exchange hexchange

/-! ## What was sent and what was answered -/

/-- The request with the machine is the client's, forwarded; the response that the client has
is one that the machine gave, without the lines for one hop. -/
structure Traced (ts : List (Run.Transition Router Event)) (x : ExchangeId)
    (exchange : Exchange) : Prop where
  sent : ∀ {sent}, exchange.phase = .forwarded sent →
    ∃ authority, exchange.request.forward? authority exchange.client? = some sent
  answered : ∀ {response}, exchange.phase = .answered response →
    ∃ upstream : Http.Response, (∃ t ∈ ts, t.event = .replied x (.response upstream)) ∧
      upstream.status ≠ 101 ∧
      response = { upstream with headers := upstream.headers.stripHopByHop }

variable {ts : List (Run.Transition Router Event)} {exchange : Exchange}

theorem forward?_of_forward (exchange : Exchange) (port : UInt16) (address : String)
    (sent : Http.Request) (hforward : exchange.forward port address = .forwarded sent) :
    exchange.request.forward? (String.ofList (machineAuthority address.toList port))
      exchange.client? = some sent := by
  -- The equation of `forward` takes long to make.
  delta Exchange.forward at hforward
  dsimp only at hforward
  split at hforward
  next r hr =>
    obtain rfl := ExchangePhase.forwarded.inj hforward
    exact hr
  next => cases hforward

theorem forward_ne_answered (exchange : Exchange) (port : UInt16) (address : String)
    (response : Http.Response) : exchange.forward port address ≠ .answered response := by
  intro hanswered
  have hsent := isSent_forward exchange port address
  rw [hanswered] at hsent
  cases hsent

theorem traced_of_outside (hforwarded : ∀ sent, exchange.phase ≠ .forwarded sent)
    (hanswered : ∀ response, exchange.phase ≠ .answered response) : Traced ts x exchange :=
  ⟨fun hphase => absurd hphase (hforwarded _), fun hphase => absurd hphase (hanswered _)⟩

theorem Traced.later (htraced : Traced ts x exchange) (t : Run.Transition Router Event) :
    Traced (ts ++ [t]) x exchange := by
  refine ⟨htraced.sent, fun hphase => ?_⟩
  obtain ⟨upstream, ⟨t', ht', hevent⟩, hrest⟩ := htraced.answered hphase
  exact ⟨upstream, ⟨t', List.mem_append_left _ ht', hevent⟩, hrest⟩

theorem traced_conclude (htraced : Traced ts x exchange) (reply : Http.Reply) :
    Traced (ts ++ [⟨r, .replied x reply, next⟩]) x
      { exchange with phase := exchange.conclude reply } := by
  cases reply with
  | nothing => exact htraced.later _
  | broken => exact traced_of_outside (by simp [Exchange.conclude]) (by simp [Exchange.conclude])
  | response upstream =>
      unfold Exchange.conclude
      dsimp only
      split
      next => split <;> exact traced_of_outside (by simp) (by simp)
      next hstatus =>
        refine ⟨by simp, fun hphase => ⟨upstream, ⟨_, List.mem_concat_self, rfl⟩, hstatus, ?_⟩⟩
        exact (ExchangePhase.answered.inj hphase).symm

theorem Traced.change (htraced : Traced ts x exchange) {phase : ExchangePhase}
    (hphase : r.PhaseChange x exchange e phase) :
    Traced (ts ++ [⟨r, e, next⟩]) x { exchange with phase := phase } := by
  cases hphase with
  | kept => exact htraced.later _
  | refused | closed | dropped => exact traced_of_outside (by simp) (by simp)
  | forwarded _ address =>
      have hsent := forward?_of_forward exchange r.port address
      have hanswered := forward_ne_answered exchange r.port address
      generalize exchange.forward r.port address = phase at hsent hanswered ⊢
      exact ⟨fun hphase => ⟨_, hsent _ hphase⟩, fun hphase => absurd hphase (hanswered _)⟩
  | replied _ reply => exact traced_conclude htraced reply

theorem traced_of_run {deadline : Duration} {port : UInt16} {wakeTimeout : Duration}
    {es : List Event} (hrun : Run.after? step (start deadline port wakeTimeout) es = some r)
    (hexchange : r.exchanges[x]? = some exchange) :
    Traced (Run.trail step (start deadline port wakeTimeout) es) x exchange := by
  refine Run.trail_induction (P := fun ts r => ∀ exchange, r.exchanges[x]? = some exchange →
    Traced ts x exchange) ?_ [] (by simp [start]) hrun exchange hexchange
  intro ts r e next htraced hstep exchange hexchange
  have hchange := exchangeChange_of_step hstep x
  rw [hexchange] at hchange
  generalize hbefore : r.exchanges[x]? = before at hchange
  cases hchange with
  | arrived harrival =>
      rcases harrival.phase with ⟨_, hphase⟩ | ⟨_, c, hphase⟩ <;>
        exact traced_of_outside (by simp [hphase]) (by simp [hphase])
  | moved hphase => exact (htraced _ hbefore).change hphase

end Router

end WakeRouter
