import WakeRouter.Proofs.Proxy.SingleHop
import WakeRouter.Proofs.Router.Questions
import WakeRouter.Proofs.Router.Stories

/-!
# Outcomes of requests

What a request is answered by the router itself follows from what its caller was told, and so
does what the steps taken for it do to the records.  `Router.Outcome` is the law, with one field
for each answer and each kind of step.
-/

namespace WakeRouter

/-- The wake whose resume call the event is about. -/
def Manager.Event.wake? : Manager.Event → Option Episode
  | .resume e | .resumed e _ | .overrun e | .brokeDown e _ | .deliver e => some e
  | _ => none

namespace Exchange

variable {exchange : Exchange}

theorem ownStatus?_of_refused {refusal : Refusal} (hphase : exchange.phase = .refused refusal) :
    exchange.ownStatus? = some refusal.response.status := by
  simp [ownStatus?, hphase, Http.Response.status_routed]

theorem ownStatus?_of_ofError {key : String} {cause : ManagerError}
    (hphase : exchange.phase = .refused (.ofError key cause)) :
    exchange.ownStatus? = some (if cause.isNotFound then 404 else 503) := by
  rw [ownStatus?_of_refused hphase, Refusal.ofError]
  split <;> rfl

theorem ownStatus?_of_served (hserved : exchange.phase.isServed ∨ exchange.phase = .dropped) :
    exchange.ownStatus? = none ∨ exchange.ownStatus? = some 502 := by
  cases hphase : exchange.phase with
  | refused refusal =>
      rw [ownStatus?_of_refused hphase]
      cases refusal with
      | badAddress | unavailable | unexpectedUpgrade => exact .inr rfl
      | noHost | notFound | startingUp => simp [hphase, ExchangePhase.isServed] at hserved
  | ensuring | forwarded | answered | tunnelling | closed | dropped =>
      exact .inl (by simp [ownStatus?, hphase])

theorem retryAfter_of_startingUp {key : String}
    (hphase : exchange.phase = .refused (.startingUp key)) :
    ∃ response, exchange.response? = some response ∧
      response.headers.all "retry-after" = [.ofText "retry-after" "5"] := by
  refine ⟨(Refusal.startingUp key).response.routed exchange.request.method,
    by simp [response?, hphase], ?_⟩
  have hlength : ((Refusal.startingUp key).response.lengthLines
      exchange.request.method).all "retry-after" = [] := by
    unfold Http.Response.lengthLines
    split
    · rfl
    · split <;> rfl
  rw [Http.Response.headers_routed, Http.Headers.all_append, hlength, List.append_nil]
  rfl

end Exchange

namespace Router

open Http (Request)

variable {r next : Router} {e : Event} {x : ExchangeId} {exchange : Exchange}
  {t : Run.Transition Router Event}

/-! ## Steps taken for a request -/

/-- The step is taken for the request: it comes, its caller looks or hears something, so does
the wake of its key, its machine answers, or its client goes away.  The end of a tunnel is none
of these. -/
inductive Serves (t : Run.Transition Router Event) (x : ExchangeId) (exchange : Exchange) : Prop
  | comes (hbefore : t.before.exchanges[x]? = none) (hafter : t.after.exchanges[x]? ≠ none)
  | looks {waiting : Exchange} {c : CallerId} {heard : Manager.Event}
      (hwaiting : t.before.exchanges[x]? = some waiting) (hphase : waiting.phase = .ensuring c)
      (hevent : t.event = .upkeep (.manager heard)) (hsubject : subject? heard = some c)
  | wakes {heard : Manager.Event} {episode : Episode} {wake : Wake}
      (hevent : t.event = .upkeep (.manager heard)) (hheard : heard.wake? = some episode)
      (hwake : t.before.manager.wakes.find? episode = some wake)
      (hkey : requestKey? exchange.request.headers exchange.request.uri = some wake.key)
  | replied {reply : Http.Reply} (hevent : t.event = .replied x reply)
  | dropped (hevent : t.event = .dropRequest x)

theorem arrival_of_comes (hstep : t.before.step t.event = some t.after)
    (hbefore : t.before.exchanges[x]? = none) (hafter : t.after.exchanges[x]? ≠ none) :
    ∃ exchange c, t.after.exchanges[x]? = some exchange ∧ Arrival t.event exchange ∧
      t.event = .request c exchange.request exchange.client? exchange.upgradable ∧
      t.after = t.before.request c exchange.request exchange.client? exchange.upgradable := by
  obtain ⟨exchange, hexchange⟩ := Option.ne_none_iff_exists'.mp hafter
  have hchange := exchangeChange_of_step hstep x
  rw [hbefore, hexchange] at hchange
  cases hchange with
  | arrived harrival =>
      obtain ⟨c, hevent⟩ := harrival.event
      have hmove := move_of_step hstep
      rw [hevent] at hmove
      generalize hlater : t.after = next at hmove
      cases hmove with
      | request => exact ⟨exchange, c, hlater ▸ hexchange, harrival, hevent, rfl⟩

theorem records_giveUp (r : Router) (c : CallerId) :
    (r.giveUp c).manager.records = r.manager.records := by
  show ((r.manager.step (.leave c)).getD r.manager).records = _
  cases hleave : r.manager.step (.leave c) with
  | none => rfl
  | some m =>
      cases Manager.move_of_step hleave with
      | leave => rfl

theorem upkeep_of_replied {reply : Http.Reply} (hstep : r.step (.replied x reply) = some next) :
    next.upkeep = r.upkeep := by
  cases move_of_step hstep with
  | replied => rfl

variable {ts : List (Run.Transition Router Event)} {port : UInt16}

theorem Story.noHost_iff (hstory : Story ts port x exchange) :
    exchange.ownStatus? = some 400 ↔
      requestKey? exchange.request.headers exchange.request.uri = none := by
  cases hstory with
  | noHost hkey hphase => simp [hkey, Exchange.ownStatus?_of_refused hphase, Refusal.response,
      Http.Response.ofText]
  | waits hkey hphase =>
      rcases hphase with ⟨c, hphase⟩ | hphase <;> simp [Exchange.ownStatus?, hkey, hphase]
  | refused hkey hphase =>
      rw [Exchange.ownStatus?_of_ofError hphase, hkey]
      split <;> simp
  | served hkey hphase => rcases Exchange.ownStatus?_of_served hphase with h | h <;> simp [h, hkey]

theorem Story.unsent (hstory : Story ts port x exchange)
    (hstatus : exchange.ownStatus? ∈ [some 400, some 404, some 503]) :
    (∀ t ∈ ts, ∀ m address, ¬Returns t x m (.address address)) ∧
      ∀ t ∈ ts, ∀ sent, ¬Contacts t x sent := by
  cases hstory with
  | noHost _ _ hidle | waits _ _ hidle =>
      exact ⟨fun t ht m address => hidle.unheard t ht m _, hidle.unsent⟩
  | refused _ _ _ _ honly hunsent =>
      refine ⟨fun t ht m address hreturns => ?_, hunsent⟩
      cases honly t ht m _ hreturns
  | served _ hphase =>
      rcases Exchange.ownStatus?_of_served hphase with h | h <;> simp [h] at hstatus

theorem Story.otherwise (hstory : Story ts port x exchange) (hresponse : exchange.response? ≠ none)
    (hstatus : exchange.ownStatus? ∉ [some 400, some 404, some 503]) :
    exchange.ownStatus? ∈ [none, some 502] ∧
      ∃ t ∈ ts, ∃ m address, Returns t x m (.address address) := by
  cases hstory with
  | noHost _ hphase =>
      simp [Exchange.ownStatus?_of_refused hphase, Refusal.response,
        Http.Response.ofText] at hstatus
  | waits _ hphase =>
      rcases hphase with ⟨c, hphase⟩ | hphase <;> simp [Exchange.response?, hphase] at hresponse
  | refused _ hphase =>
      rw [Exchange.ownStatus?_of_ofError hphase] at hstatus
      split at hstatus <;> simp at hstatus
  | @served t m address _ hphase ht hreturns =>
      refine ⟨?_, t, ht, m, address, hreturns⟩
      rcases Exchange.ownStatus?_of_served hphase with h | h <;> simp [h]

theorem Story.sent (hstory : Story ts port x exchange) {sent : Request}
    (hsent : exchange.phase = .forwarded sent) :
    ∃ t ∈ ts, ∃ m address, Returns t x m (.address address) ∧
      exchange.request.forward? (String.ofList (machineAuthority address.toList port))
        exchange.client? = some sent := by
  cases hstory with
  | noHost _ hphase | refused _ hphase => cases hsent.symm.trans hphase
  | waits _ hphase => simp [hsent] at hphase
  | @served t m address _ _ ht hreturns _ hforward =>
      exact ⟨t, ht, m, address, hreturns, hforward sent hsent⟩

theorem Story.retryAfter (hstory : Story ts port x exchange)
    (hstatus : exchange.ownStatus? = some 503) :
    ∃ response, exchange.response? = some response ∧
      response.headers.all "retry-after" = [.ofText "retry-after" "5"] := by
  cases hstory with
  | noHost _ hphase =>
      simp [Exchange.ownStatus?_of_refused hphase, Refusal.response,
        Http.Response.ofText] at hstatus
  | waits _ hphase =>
      rcases hphase with ⟨c, hphase⟩ | hphase <;> simp [Exchange.ownStatus?, hphase] at hstatus
  | @refused _ _ cause _ hphase =>
      rw [Exchange.ownStatus?_of_ofError hphase] at hstatus
      have hstarting : cause.isNotFound = false := by
        cases hmissing : cause.isNotFound <;> simp [hmissing] at hstatus ⊢
      rw [Refusal.ofError, hstarting] at hphase
      exact Exchange.retryAfter_of_startingUp hphase
  | served _ hphase =>
      rcases Exchange.ownStatus?_of_served hphase with h | h <;> simp [h] at hstatus

/-- The steps taken for a request without a host do nothing and call for nothing. -/
theorem Story.untouched (hstory : Story ts port x exchange)
    (hstatus : exchange.ownStatus? = some 400) (ht : t ∈ ts)
    (hstep : t.before.step t.event = some t.after) (hserves : Serves t x exchange) :
    t.after.upkeep = t.before.upkeep ∧ t.before.call? t.event = none := by
  have hkey := hstory.noHost_iff.mp hstatus
  cases hstory with
  | waits hother | refused hother | served hother => cases hkey.symm.trans hother
  | noHost _ _ _ hstays =>
      cases hserves with
      | comes hbefore hafter =>
          obtain ⟨old, c, hold, harrival, hevent, hsame⟩ := arrival_of_comes hstep hbefore hafter
          have hrefused := hstays t ht old (.inr hold)
          have hkey : requestKey? old.request.headers old.request.uri = none := by
            rcases harrival.phase with ⟨hkey, _⟩ | ⟨_, c, hphase⟩
            · exact hkey
            · cases hphase.symm.trans hrefused
          rw [hsame, hevent]
          constructor
          · simp [Router.request, hkey]
          · simp [call?, hkey]
      | looks hwaiting hphase => cases hphase.symm.trans (hstays t ht _ (.inl hwaiting))
      | wakes _ _ _ hother => cases hkey.symm.trans hother
      | replied hevent =>
          rw [hevent] at hstep ⊢
          exact ⟨upkeep_of_replied hstep, rfl⟩
      | dropped hevent =>
          have hmove := move_of_step hstep
          rw [hevent] at hmove
          generalize t.after = next at hmove
          cases hmove with
          | abandon hexchange hphase | hangUp hexchange hphase =>
              cases hphase.symm.trans (hstays t ht _ (.inl hexchange))

/-! ## The law -/

/-- What the router answers a request by itself, when it does so, and what the steps taken for
the request do. -/
structure Outcome (ts : List (Run.Transition Router Event)) (port : UInt16) (x : ExchangeId)
    (exchange : Exchange) : Prop where
  noHost : exchange.ownStatus? = some 400 ↔
    requestKey? exchange.request.headers exchange.request.uri = none
  untouched : exchange.ownStatus? = some 400 → ∀ t ∈ ts, Serves t x exchange →
    t.after.upkeep = t.before.upkeep ∧ t.before.call? t.event = none
  keyed : exchange.ownStatus? ≠ some 400 →
    requestKey? exchange.request.headers exchange.request.uri = some exchange.key
  notFound : exchange.ownStatus? = some 404 ↔
    ∃ t ∈ ts, ∃ m cause, Returns t x m (.error cause) ∧ cause.isNotFound = true
  startingUp : exchange.ownStatus? = some 503 ↔
    ∃ t ∈ ts, ∃ m cause, Returns t x m (.error cause) ∧ cause.isNotFound = false
  retryAfter : exchange.ownStatus? = some 503 → ∃ response, exchange.response? = some response ∧
    response.headers.all "retry-after" = [.ofText "retry-after" "5"]
  /-- Who is refused for want of a machine has been with none, and has used no record. -/
  unsent : exchange.ownStatus? ∈ [some 400, some 404, some 503] → ∀ t ∈ ts,
    (∀ sent, ¬Contacts t x sent) ∧
      (Serves t x exchange → t.before.manager.KeepsActivity t.after.manager)
  /-- In the step in which an address is told, the record of the key, which has that address, is
  used, and nothing else about it or about any other changes; and the request goes on to that
  address.  No other step taken for the request uses a record. -/
  served : ∀ t ∈ ts, ∀ m address, Returns t x m (.address address) →
    (∃ record, t.before.manager.records.find? exchange.key = some record ∧
      record.address = address ∧
      ∀ key, t.after.manager.records.find? key =
        if key = exchange.key then some { record with lastActivity := t.after.now }
        else t.before.manager.records.find? key) ∧
    t.after.exchanges[x]? = some { exchange with phase := exchange.forward port address }
  unused : ∀ t ∈ ts, Serves t x exchange → (∀ m address, ¬Returns t x m (.address address)) →
    t.before.manager.KeepsActivity t.after.manager
  sent : ∀ sent, exchange.phase = .forwarded sent →
    ∃ t ∈ ts, ∃ m address, Returns t x m (.address address) ∧
      exchange.request.forward? (String.ofList (machineAuthority address.toList port))
        exchange.client? = some sent
  /-- Every other response comes after an address was told. -/
  otherwise : exchange.response? ≠ none →
    exchange.ownStatus? ∉ [some 400, some 404, some 503] →
    exchange.ownStatus? ∈ [none, some 502] ∧
      ∃ t ∈ ts, ∃ m address, Returns t x m (.address address)
  /-- What the machine answers, or that it does not, changes no record. -/
  replied : ∀ t ∈ ts, ∀ reply, t.event = .replied x reply → t.after.upkeep = t.before.upkeep

/-- The step in which an address is told. -/
theorem served_of_returns (hr : t.before.Known) (hstep : t.before.step t.event = some t.after)
    {m : Manager} {address : String} (hreturns : Returns t x m (.address address)) :
    ∃ waiting record, t.before.exchanges[x]? = some waiting ∧
      t.before.manager.records.find? waiting.key = some record ∧ record.address = address ∧
      (∀ key, t.after.manager.records.find? key =
        if key = waiting.key then some { record with lastActivity := t.after.now }
        else t.before.manager.records.find? key) ∧
      t.after.exchanges[x]? =
        some { waiting with phase := waiting.forward t.before.port address } := by
  obtain ⟨waiting, c, hwaiting, hphase⟩ := hreturns.ensuring
  cases waitChange_of_step hr hstep hwaiting hphase with
  | waits hnothing => exact absurd hreturns (hnothing _ _)
  | gone _ hnothing => exact absurd hreturns (hnothing _ _)
  | refused hother => cases (hother.unique hreturns).2
  | @served m' record hother hnow hrecords hrecord hmanager hnext =>
      obtain ⟨-, haddress⟩ := hother.unique hreturns
      obtain rfl := Answer.address.inj haddress
      refine ⟨waiting, record, hwaiting, hrecords ▸ hrecord, rfl, fun key => ?_, hnext⟩
      rw [Router.now, hmanager, ← hrecords]
      split
      next hkey => rw [hkey, Manager.find?_touch hrecord]; rfl
      next hkey => exact Manager.find?_touch_of_ne hkey

end Router

end WakeRouter
