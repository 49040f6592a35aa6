import WakeRouter.Proofs.Manager.Absence
import WakeRouter.Proofs.Router.Turns
import WakeRouter.Proofs.Router.Visits

/-!
# Whose callers the callers are

A request that waits for its machine and a question that waits for a lookup have each a caller of
their own, who wants what they want.  A request that was told that there is no machine for its
key was told so because of the record of the key.
-/

namespace WakeRouter

namespace Manager

variable {m m' : Manager}

/-- The manager has come about in a run. -/
def Reachable (m : Manager) : Prop :=
  ∃ deadline es, (start deadline).run es = some m

theorem Reachable.reaches (hm : m.Reachable) (hreaches : m.Reaches m') : m'.Reachable := by
  obtain ⟨deadline, es, hrun⟩ := hm
  obtain ⟨later, hlater⟩ := hreaches.exists_run
  exact ⟨deadline, es ++ later, (Run.after?_append_of_run hrun later).trans hlater⟩

theorem Reachable.consistent (hm : m.Reachable) : m.Consistent := by
  obtain ⟨_, _, hrun⟩ := hm
  exact consistent_of_run hrun

theorem Reachable.told (hm : m.Reachable) {c : CallerId} {caller : Caller}
    (hcaller : m.callers.find? c = some caller) : m.Told caller := by
  obtain ⟨_, _, hrun⟩ := hm
  exact told_of_run hrun hcaller

end Manager

/-- The request waits for the machine of its key, or has been told that there is none. -/
def ExchangePhase.dependsOnKey : ExchangePhase → Bool
  | .ensuring _ | .refused (.notFound _) => true
  | _ => false

theorem dependsOnKey_of_isSent {phase : ExchangePhase} (hsent : phase.isSent) :
    phase.dependsOnKey = false := by
  cases phase with
  | refused refusal => cases refusal <;> first | rfl | cases hsent
  | forwarded => rfl
  | ensuring | answered | tunnelling | closed | dropped => cases hsent

theorem dependsOnKey_conclude {exchange : Exchange} {sent : Http.Request}
    (hphase : exchange.phase = .forwarded sent) (reply : Http.Reply) :
    (exchange.conclude reply).dependsOnKey = false := by
  unfold Exchange.conclude
  split
  · split
    · split <;> rfl
    · rfl
  · rfl
  · rw [hphase]
    rfl

/-- The question waits for a lookup. -/
def AskPhase.isOpen : AskPhase → Bool
  | .looking .. => true
  | _ => false

namespace Router

variable {r r' next : Router}

theorem reaches_of_step {e : Event} (hstep : r.step e = some next) :
    r.manager.Reaches next.manager := by
  cases heard_of_step hstep with
  | @own e u _ hu hvisited =>
      have hheard : r.manager.Reaches u.manager := by
        rcases Upkeep.manager_of_step hu with hsame | ⟨heard, hheard, _⟩
        · rw [hsame]
          exact .refl
        · exact Manager.reaches_of_step hheard
      exact hheard.trans hvisited.manager.reaches
  | visits _ hvisited => exact hvisited.manager.reaches

/-! ## What is open -/

/-- What is open in the second router was open in the first, and is as it was there. -/
structure Fewer (r r' : Router) : Prop where
  exchanges : ∀ {x : ExchangeId} {exchange : Exchange}, r'.exchanges[x]? = some exchange →
    exchange.phase.dependsOnKey → r.exchanges[x]? = some exchange
  asks : ∀ {a : AskId} {ask : Ask}, r'.asks[a]? = some ask → ask.phase.isOpen →
    r.asks[a]? = some ask

theorem fewer_of_same (hexchanges : r'.exchanges = r.exchanges) (hasks : r'.asks = r.asks) :
    r.Fewer r' :=
  ⟨fun hexchange _ => hexchanges ▸ hexchange, fun hask _ => hasks ▸ hask⟩

theorem getElem?_modify_of_not {α : Type} {p : α → Bool} {f : α → α} (hnever : ∀ a, p (f a) = false)
    {l : List α} {i j : Nat} {a : α} (ha : (l.modify i f)[j]? = some a) (hp : p a) :
    l[j]? = some a := by
  by_cases hij : i = j
  · subst hij
    rw [List.getElem?_modify_eq] at ha
    obtain ⟨old, _, rfl⟩ := Option.map_eq_some_iff.mp ha
    rw [hnever] at hp
    cases hp
  · rwa [List.getElem?_modify_ne _ _ hij] at ha

theorem fewer_of_exchange (x : ExchangeId) {phase : ExchangePhase}
    (hphase : phase.dependsOnKey = false)
    (hexchanges : r'.exchanges = withPhase r.exchanges x phase) (hasks : r'.asks = r.asks) :
    r.Fewer r' := by
  refine ⟨fun hexchange hopen => ?_, fun hask _ => hasks ▸ hask⟩
  rw [hexchanges] at hexchange
  exact getElem?_modify_of_not (p := fun exchange => exchange.phase.dependsOnKey) (fun _ => hphase)
    hexchange hopen

theorem fewer_of_ask (a : AskId) {phase : AskPhase} (hphase : phase.isOpen = false)
    (hexchanges : r'.exchanges = r.exchanges)
    (hasks : r'.asks = r.asks.modify a fun ask => { ask with phase := phase }) : r.Fewer r' := by
  refine ⟨fun hexchange _ => hexchanges ▸ hexchange, fun hask hopen => ?_⟩
  rw [hasks] at hask
  exact getElem?_modify_of_not (p := fun ask => ask.phase.isOpen) (fun _ => hphase) hask hopen

theorem fewer_dispatch (r : Router) (x : ExchangeId) (exchange : Exchange) {a : Answer}
    (hserved : ∀ cause, a = .error cause → cause.isNotFound = false) :
    r.Fewer (r.dispatch x exchange a) := by
  have hforward : ∀ address, (exchange.forward r.port address).dependsOnKey = false :=
    fun address => dependsOnKey_of_isSent (isSent_forward exchange r.port address)
  cases a with
  | error cause =>
      refine fewer_of_exchange x ?_ rfl rfl
      simp [Refusal.ofError, hserved cause rfl, ExchangePhase.dependsOnKey]
  | address address => exact fewer_of_exchange x (hforward address) rfl rfl
  | record s => exact fewer_of_exchange x (hforward s.address) rfl rfl

/-! ## Owners -/

/-- Who waits in the router has a caller of its own, and who was refused was so rightly. -/
structure Sound (r : Router) : Prop where
  ensuring : ∀ {x : ExchangeId} {exchange : Exchange} {c : CallerId},
    r.exchanges[x]? = some exchange → exchange.phase = .ensuring c →
    requestKey? exchange.request.headers exchange.request.uri = some exchange.key ∧
      ∃ caller timeout, r.manager.callers.find? c = some caller ∧ caller.key = exchange.key ∧
        caller.purpose = .ensure timeout
  distinct : ∀ {x y : ExchangeId} {exchange other : Exchange} {c : CallerId},
    r.exchanges[x]? = some exchange → exchange.phase = .ensuring c →
    r.exchanges[y]? = some other → other.phase = .ensuring c → x = y
  refused : ∀ {x : ExchangeId} {exchange : Exchange} {key : String},
    r.exchanges[x]? = some exchange → exchange.phase = .refused (.notFound key) →
    requestKey? exchange.request.headers exchange.request.uri = some key ∧
      r.manager.state? key = some .notFound
  looking : ∀ {a : AskId} {ask : Ask} {c : CallerId} {since : Instant},
    r.asks[a]? = some ask → ask.phase = .looking c since →
    ∃ caller, r.manager.callers.find? c = some caller ∧ caller.purpose = .lookup

theorem Sound.of_fewer (hr : r.Sound) (hm : r.manager.Consistent) (hfewer : r.Fewer next)
    (hreaches : r.manager.Reaches next.manager) : next.Sound := by
  have hensuring : ∀ {x : ExchangeId} {exchange : Exchange} {c : CallerId},
      next.exchanges[x]? = some exchange → exchange.phase = .ensuring c →
      r.exchanges[x]? = some exchange := by
    intro x exchange c hexchange hphase
    exact hfewer.exchanges hexchange (by rw [hphase]; rfl)
  constructor
  case ensuring =>
    intro x exchange c hexchange hphase
    obtain ⟨hkey, caller, timeout, hcaller, hsame, hpurpose⟩ :=
      hr.ensuring (hensuring hexchange hphase) hphase
    obtain ⟨caller', hcaller', hsame', hpurpose'⟩ :=
      Manager.find?_caller_of_reaches hreaches hcaller
    exact ⟨hkey, caller', timeout, hcaller', hsame'.trans hsame, hpurpose'.trans hpurpose⟩
  case distinct =>
    intro x y exchange other c hexchange hphase hother hphase'
    exact hr.distinct (hensuring hexchange hphase) hphase (hensuring hother hphase') hphase'
  case refused =>
    intro x exchange key hexchange hphase
    obtain ⟨hkey, hstate⟩ := hr.refused (hfewer.exchanges hexchange (by rw [hphase]; rfl)) hphase
    exact ⟨hkey, Manager.notFound_of_reaches hm hreaches hstate⟩
  case looking =>
    intro a ask c since hask hphase
    obtain ⟨caller, hcaller, hpurpose⟩ :=
      hr.looking (hfewer.asks hask (by rw [hphase]; rfl)) hphase
    obtain ⟨caller', hcaller', _, hpurpose'⟩ := Manager.find?_caller_of_reaches hreaches hcaller
    exact ⟨caller', hcaller', hpurpose'.trans hpurpose⟩

/-- A request is refused whose caller heard that there is no machine for its key. -/
theorem Sound.refuse (hr : r.Sound) {x : ExchangeId} {exchange : Exchange} {c : CallerId}
    (hexchange : r.exchanges[x]? = some exchange) (hphase : exchange.phase = .ensuring c)
    (hstate : r.manager.state? exchange.key = some .notFound) :
    (r.setExchange x (.refused (.notFound exchange.key))).Sound := by
  have hget : ∀ {y : ExchangeId} {e : Exchange},
      (r.setExchange x (.refused (.notFound exchange.key))).exchanges[y]? = some e →
      (y = x ∧ e = { exchange with phase := .refused (.notFound exchange.key) }) ∨
        r.exchanges[y]? = some e := by
    intro y e he
    have he : (withPhase r.exchanges x (.refused (.notFound exchange.key)))[y]? = some e := he
    rw [getElem?_withPhase] at he
    split at he
    next hyx =>
      rw [hyx, hexchange, Option.map_some, Option.some.injEq] at he
      exact .inl ⟨hyx, he.symm⟩
    next => exact .inr he
  constructor
  case ensuring =>
    intro y e c' he hwaits
    rcases hget he with ⟨_, rfl⟩ | he
    · cases hwaits
    · exact hr.ensuring he hwaits
  case distinct =>
    intro y z e e' c' he hwaits he' hwaits'
    rcases hget he with ⟨_, rfl⟩ | he
    · cases hwaits
    rcases hget he' with ⟨_, rfl⟩ | he'
    · cases hwaits'
    exact hr.distinct he hwaits he' hwaits'
  case refused =>
    intro y e key he hrefused
    rcases hget he with ⟨_, rfl⟩ | he
    · cases hrefused
      exact ⟨(hr.ensuring hexchange hphase).1, hstate⟩
    · exact hr.refused he hrefused
  case looking => exact hr.looking

theorem Sound.attend (hr : r.Sound) (hm : r.manager.Reachable) (c : CallerId) :
    (r.attend c).Sound := by
  have hreaches := (visited_attend r c).manager.reaches
  have hattended := attended r c
  generalize r.attend c = next at hreaches hattended
  cases hattended with
  | aside => exact hr
  | told => exact hr.of_fewer hm.consistent (fewer_of_ask _ rfl rfl rfl) hreaches
  | @dispatched x exchange a hanswer hexchange hphase =>
      by_cases hserved : ∀ cause, a = .error cause → cause.isNotFound = false
      · exact hr.of_fewer hm.consistent (fewer_dispatch r x exchange hserved) hreaches
      · obtain ⟨cause, rfl, hcause⟩ : ∃ cause, a = .error cause ∧ cause.isNotFound := by
          simpa using hserved
        obtain ⟨_, caller, _, hcaller, hkey, _⟩ := hr.ensuring hexchange hphase
        rw [hcaller, Option.bind_some] at hanswer
        have hstate := (hm.told hcaller).refused (Caller.answer?_eq_some_iff.mp hanswer) hcause
        have hrefused := hr.refuse hexchange hphase (hkey ▸ hstate)
        simpa [dispatch, Refusal.ofError, hcause] using hrefused

/-! ## Arrivals -/

theorem getElem?_concat {α : Type} {l : List α} {a b : α} {i : Nat}
    (hb : (l ++ [a])[i]? = some b) : l[i]? = some b ∨ i = l.length ∧ b = a := by
  rw [List.getElem?_append] at hb
  split at hb
  next => exact .inl hb
  next hlength =>
    obtain ⟨hi, rfl⟩ := List.getElem?_eq_some_iff.mp hb
    rw [List.length_singleton] at hi
    exact .inr ⟨by omega, by simp⟩

theorem fewer_request {exchange : Exchange} (hphase : exchange.phase.dependsOnKey = false)
    (hexchanges : r'.exchanges = r.exchanges ++ [exchange]) (hasks : r'.asks = r.asks) :
    r.Fewer r' := by
  refine ⟨fun hexchange hopen => ?_, fun hask _ => hasks ▸ hask⟩
  rw [hexchanges] at hexchange
  rcases getElem?_concat hexchange with hold | ⟨_, rfl⟩
  · exact hold
  · rw [hphase] at hopen
    cases hopen

theorem fewer_ask {ask : Ask} (hphase : ask.phase.isOpen = false)
    (hexchanges : r'.exchanges = r.exchanges) (hasks : r'.asks = r.asks ++ [ask]) :
    r.Fewer r' := by
  refine ⟨fun hexchange _ => hexchanges ▸ hexchange, fun hask hopen => ?_⟩
  rw [hasks] at hask
  rcases getElem?_concat hask with hold | ⟨_, rfl⟩
  · exact hold
  · rw [hphase] at hopen
    cases hopen

theorem Sound.ne_of_fresh (hr : r.Sound) {c : CallerId}
    (hfresh : r.manager.callers.find? c = none) {x : ExchangeId} {exchange : Exchange}
    {c' : CallerId} (hexchange : r.exchanges[x]? = some exchange)
    (hphase : exchange.phase = .ensuring c') : c' ≠ c := by
  rintro rfl
  obtain ⟨_, caller, _, hcaller, _⟩ := hr.ensuring hexchange hphase
  rw [hfresh] at hcaller
  cases hcaller

theorem reaches_arrive {c : CallerId} (hfresh : r.manager.callers.find? c = none) (key : String)
    (timeout : Duration) (cancelled : Bool) :
    r.manager.Reaches (r.manager.arrive c key (.ensure timeout) cancelled) :=
  Manager.reaches_of_step (Manager.Move.ensure hfresh).step_eq

/-- A request joins the others whose caller is nobody else's. -/
theorem Sound.join (hr : r.Sound) {exchange : Exchange} {c : CallerId} {caller : Caller}
    {timeout : Duration} (hphase : exchange.phase = .ensuring c)
    (hkey : requestKey? exchange.request.headers exchange.request.uri = some exchange.key)
    (hcaller : r.manager.callers.find? c = some caller) (hsame : caller.key = exchange.key)
    (hpurpose : caller.purpose = .ensure timeout)
    (hnew : ∀ {y : ExchangeId} {other : Exchange}, r.exchanges[y]? = some other →
      other.phase ≠ .ensuring c) :
    Sound { r with exchanges := r.exchanges ++ [exchange] } := by
  have hget : ∀ {x : ExchangeId} {e : Exchange}, (r.exchanges ++ [exchange])[x]? = some e →
      r.exchanges[x]? = some e ∨ x = r.exchanges.length ∧ e = exchange := getElem?_concat
  constructor
  case ensuring =>
    intro x e c' he hwaits
    rcases hget he with he | ⟨_, rfl⟩
    · exact hr.ensuring he hwaits
    · obtain rfl := ExchangePhase.ensuring.inj (hphase.symm.trans hwaits)
      exact ⟨hkey, caller, timeout, hcaller, hsame, hpurpose⟩
  case distinct =>
    intro x y e e' c' he hwaits he' hwaits'
    rcases hget he with hold | ⟨hx, rfl⟩
    · rcases hget he' with hold' | ⟨_, rfl⟩
      · exact hr.distinct hold hwaits hold' hwaits'
      · obtain rfl := ExchangePhase.ensuring.inj (hphase.symm.trans hwaits')
        exact absurd hwaits (hnew hold)
    · rcases hget he' with hold' | ⟨hy, rfl⟩
      · obtain rfl := ExchangePhase.ensuring.inj (hphase.symm.trans hwaits)
        exact absurd hwaits' (hnew hold')
      · exact hx.trans hy.symm
  case refused =>
    intro x e key he hrefused
    rcases hget he with he | ⟨_, rfl⟩
    · exact hr.refused he hrefused
    · rw [hphase] at hrefused
      cases hrefused
  case looking => exact hr.looking

theorem Sound.request (hr : r.Sound) (hm : r.manager.Consistent) {c : CallerId}
    (hfresh : r.manager.callers.find? c = none) (request : Http.Request)
    (client? : Option Net.Ip) (upgradable : Bool) :
    (r.request c request client? upgradable).Sound := by
  unfold Router.request
  split
  next => exact hr.of_fewer hm (fewer_request rfl rfl rfl) .refl
  next key hkey =>
    have hreaches := reaches_arrive hfresh key r.wakeTimeout r.stopping
    have hrest :
        (r.withManager (r.manager.arrive c key (.ensure r.wakeTimeout) r.stopping)).Sound :=
      hr.of_fewer hm (fewer_of_same rfl rfl) hreaches
    have hcaller := (Manager.find?_callers_arrive hfresh c key (.ensure r.wakeTimeout)
      r.stopping).trans (if_pos rfl)
    refine hrest.join rfl hkey hcaller rfl rfl fun hother hwaits => ?_
    exact hr.ne_of_fresh hfresh hother hwaits rfl

theorem Sound.lookFor (hr : r.Sound) {ask : Ask} {c : CallerId} {since : Instant} {caller : Caller}
    (hphase : ask.phase = .looking c since) (hcaller : r.manager.callers.find? c = some caller)
    (hpurpose : caller.purpose = .lookup) : Sound { r with asks := r.asks ++ [ask] } := by
  refine ⟨hr.ensuring, hr.distinct, hr.refused, ?_⟩
  intro a ask' c' since' hask hlooks
  rcases getElem?_concat hask with hask | ⟨_, rfl⟩
  · exact hr.looking hask hlooks
  · obtain ⟨rfl, rfl⟩ := AskPhase.looking.inj (hphase.symm.trans hlooks)
    exact ⟨caller, hcaller, hpurpose⟩

/-- The router with one more question, whose caller it has not attended to. -/
def withQuestion (r : Router) (c : CallerId) (method domain : String) : Router :=
  { r.withManager (r.manager.arrive c domain .lookup false) with
    asks := r.asks ++ [⟨method, .looking c r.now⟩] }

theorem ask_of_ok {method domain : String} {uri : Http.Uri}
    (hdomain : Ask.question? method uri = .ok domain) (r : Router) (c : CallerId) :
    r.ask c method uri = (r.withQuestion c method domain).attend c := by
  unfold Router.ask
  rw [hdomain]
  rfl

theorem ask_of_error {method : String} {uri : Http.Uri} {verdict : AskVerdict}
    (hverdict : Ask.question? method uri = .error verdict) (r : Router) (c : CallerId) :
    r.ask c method uri = { r with asks := r.asks ++ [⟨method, .answered verdict⟩] } := by
  unfold Router.ask
  rw [hverdict]

theorem reaches_withQuestion {c : CallerId} (hfresh : r.manager.callers.find? c = none)
    (method domain : String) : r.manager.Reaches (r.withQuestion c method domain).manager :=
  Manager.reaches_of_step (Manager.Move.lookup hfresh).step_eq

theorem find?_caller_withQuestion {c : CallerId} (hfresh : r.manager.callers.find? c = none)
    (method domain : String) :
    (r.withQuestion c method domain).manager.callers.find? c =
      some ⟨domain, .lookup, false, r.manager.reception domain .lookup⟩ :=
  (Manager.find?_callers_arrive hfresh c domain .lookup false).trans (if_pos rfl)

theorem Sound.withQuestion (hr : r.Sound) (hm : r.manager.Reachable) {c : CallerId}
    (hfresh : r.manager.callers.find? c = none) (method domain : String) :
    (r.withQuestion c method domain).Sound := by
  have hrest : (r.withManager (r.manager.arrive c domain .lookup false)).Sound :=
    hr.of_fewer hm.consistent (fewer_of_same rfl rfl) (reaches_withQuestion hfresh method domain)
  exact hrest.lookFor rfl (find?_caller_withQuestion hfresh method domain) rfl

theorem Sound.ask (hr : r.Sound) (hm : r.manager.Reachable) {c : CallerId}
    (hfresh : r.manager.callers.find? c = none) (method : String) (uri : Http.Uri) :
    (r.ask c method uri).Sound := by
  cases hquestion : Ask.question? method uri with
  | error verdict =>
      rw [ask_of_error hquestion]
      exact hr.of_fewer hm.consistent (fewer_ask rfl rfl rfl) .refl
  | ok domain =>
      rw [ask_of_ok hquestion]
      have hreaches := reaches_withQuestion hfresh method domain
      exact (hr.withQuestion hm hfresh method domain).attend (hm.reaches hreaches) c

theorem Sound.step (hr : r.Sound) (hm : r.manager.Reachable) {e : Event}
    (hstep : r.step e = some next) : next.Sound := by
  have hreaches := reaches_of_step hstep
  cases move_of_step hstep with
  | @heard e m c hheard _ =>
      have hreaches := Manager.reaches_of_step hheard
      have hrest : (r.withManager m).Sound :=
        hr.of_fewer hm.consistent (fewer_of_same rfl rfl) hreaches
      exact hrest.attend (hm.reaches hreaches) c
  | unheard | watched | shutDown =>
      exact hr.of_fewer hm.consistent (fewer_of_same rfl rfl) hreaches
  | @request c request client? upgradable hfresh =>
      exact hr.request hm.consistent hfresh request client? upgradable
  | @replied x exchange sent reply _ hphase =>
      have hover := dependsOnKey_conclude hphase reply
      exact hr.of_fewer hm.consistent (fewer_of_exchange x hover rfl rfl) hreaches
  | @close x | @abandon x | @hangUp x =>
      exact hr.of_fewer hm.consistent (fewer_of_exchange x rfl rfl rfl) hreaches
  | @ask c method uri hfresh => exact hr.ask hm hfresh method uri
  | @expire a | @dropAsk a => exact hr.of_fewer hm.consistent (fewer_of_ask a rfl rfl rfl) hreaches

end Router

end WakeRouter
