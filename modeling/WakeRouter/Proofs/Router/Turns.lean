import WakeRouter.Proofs.Manager.Answers
import WakeRouter.Proofs.Manager.Idleness
import WakeRouter.Proofs.Router.Step
import WakeRouter.Proofs.Watcher.Step

/-!
# What the router does to its exchanges

`Router.Turn` lists what one step can do to the exchanges, and to the activity of the keys.
Activity is noted when a request goes on to its machine, when a tunnel ends, and when somebody
else says so; everything else that a step does to the manager leaves activity alone.
-/

namespace WakeRouter

namespace Manager

/-- Nothing is touched on the way from the first manager to the second. -/
abbrev Quietly (m : Manager) : Manager → Prop :=
  Run.ReachesBy step (fun e => ∀ key, e ≠ .touch key) m

theorem now_le_of_reaches {allowed : Event → Prop} {m m' : Manager}
    (hreaches : Run.ReachesBy step allowed m m') : m.now ≤ m'.now :=
  hreaches.invariant (P := fun n => m.now ≤ n.now)
    (fun hle _ hstep => Nat.le_trans hle (now_le_of_step hstep)) (Nat.le_refl m.now)

end Manager

namespace ExchangePhase

/-- The request was sent to its machine, or could not be sent to the address of it. -/
def isSent : ExchangePhase → Bool
  | .forwarded _ | .refused .badAddress => true
  | _ => false

/-- The request is with its machine, or has become a tunnel. -/
def isUnderWay : ExchangePhase → Bool
  | .forwarded _ | .tunnelling _ => true
  | _ => false

end ExchangePhase

namespace Router

variable {r : Router}

/-- The exchanges when one of them goes on to that phase. -/
def withPhase (exchanges : List Exchange) (x : ExchangeId) (phase : ExchangePhase) :
    List Exchange :=
  exchanges.modify x fun exchange => { exchange with phase := phase }

theorem getElem?_withPhase (exchanges : List Exchange) (x : ExchangeId) (phase : ExchangePhase)
    (y : ExchangeId) :
    (withPhase exchanges x phase)[y]? =
      if y = x then (exchanges[y]?).map fun exchange => { exchange with phase := phase }
      else exchanges[y]? := by
  unfold withPhase
  split
  next hsame => rw [hsame, List.getElem?_modify_eq]; rfl
  next hne => exact List.getElem?_modify_ne _ _ (Ne.symm hne)

/-- What a step can do to the exchanges and to the activity of the keys. -/
inductive Turn (r : Router) : Event → Router → Prop
  | aside {e : Event} {next : Router} (hother : ∀ key, e ≠ .upkeep (.manager (.touch key)))
      (hquiet : r.manager.Quietly next.manager) (hexchanges : next.exchanges = r.exchanges) :
      Turn r e next
  | touched {next : Router} (key : String) (hmanager : next.manager = r.manager.touch key)
      (hexchanges : next.exchanges = r.exchanges) : Turn r (.upkeep (.manager (.touch key))) next
  /-- A request comes; one that names a host gets a caller. -/
  | arrived {e : Event} {next : Router} {exchange : Exchange}
      (hother : ∀ key, e ≠ .upkeep (.manager (.touch key)))
      (hquiet : r.manager.Quietly next.manager)
      (hexchanges : next.exchanges = r.exchanges ++ [exchange])
      (hidle : exchange.phase.isUnderWay = false)
      (hcaller : ∀ c, exchange.phase = .ensuring c →
        ∃ caller, next.manager.callers.find? c = some caller ∧ caller.key = exchange.key) :
      Turn r e next
  /-- A request ends without its machine. -/
  | turnedAway {e : Event} {next : Router} {x : ExchangeId} {exchange : Exchange} {c : CallerId}
      {phase : ExchangePhase} (hother : ∀ key, e ≠ .upkeep (.manager (.touch key)))
      (hquiet : r.manager.Quietly next.manager) (hexchange : r.exchanges[x]? = some exchange)
      (hensuring : exchange.phase = .ensuring c)
      (hphase : (∃ cause, phase = .refused (.ofError exchange.key cause)) ∨ phase = .dropped)
      (hexchanges : next.exchanges = withPhase r.exchanges x phase) : Turn r e next
  /-- The caller of a request has an address, and the request goes on. -/
  | forwarded {e : Event} {next : Router} {m : Manager} {x : ExchangeId} {exchange : Exchange}
      {c : CallerId} {a : Answer} {phase : ExchangePhase}
      (hother : ∀ key, e ≠ .upkeep (.manager (.touch key))) (hquiet : r.manager.Quietly m)
      (hnow : m.now = r.now) (hexchange : r.exchanges[x]? = some exchange)
      (hensuring : exchange.phase = .ensuring c)
      (hanswer : (m.callers.find? c).bind Caller.answer? = some a)
      (hserved : ∀ cause, a ≠ .error cause) (hmanager : next.manager = m.touch exchange.key)
      (hsent : phase.isSent) (hexchanges : next.exchanges = withPhase r.exchanges x phase) :
      Turn r e next
  /-- The machine answers, or the client goes away before that. -/
  | concluded {e : Event} {next : Router} {x : ExchangeId} {exchange : Exchange}
      {request : Http.Request} {phase : ExchangePhase}
      (hother : ∀ key, e ≠ .upkeep (.manager (.touch key))) (hmanager : next.manager = r.manager)
      (hexchange : r.exchanges[x]? = some exchange)
      (hforwarded : exchange.phase = .forwarded request)
      (hphase : (∃ reply, phase = exchange.conclude reply) ∨ phase = .dropped)
      (hexchanges : next.exchanges = withPhase r.exchanges x phase) : Turn r e next
  | closed {next : Router} {x : ExchangeId} {exchange : Exchange} {response : Http.Response}
      (hexchange : r.exchanges[x]? = some exchange)
      (htunnelling : exchange.phase = .tunnelling response)
      (hmanager : next.manager = r.manager.touch exchange.key)
      (hexchanges : next.exchanges = withPhase r.exchanges x (.closed response)) :
      Turn r (.close x) next

theorem isSent_forward (exchange : Exchange) (port : UInt16) (address : String) :
    (exchange.forward port address).isSent := by
  -- The equation of `forward` takes long to make.
  delta Exchange.forward
  dsimp only
  split <;> rfl

theorem turn_of_attend {e : Event} {r' : Router}
    (hother : ∀ key, e ≠ .upkeep (.manager (.touch key))) (hquiet : r.manager.Quietly r'.manager)
    (hnow : r'.now = r.now) (hexchanges : r'.exchanges = r.exchanges) (c : CallerId) :
    r.Turn e (r'.attend c) := by
  have hattended := attended r' c
  generalize r'.attend c = next at hattended
  cases hattended with
  | aside | told => exact .aside hother hquiet hexchanges
  | @dispatched x exchange a hanswer hexchange hphase =>
      rw [hexchanges] at hexchange
      cases a with
      | error cause =>
          refine .turnedAway hother hquiet hexchange hphase (.inl ⟨cause, rfl⟩) ?_
          rw [← hexchanges]
          rfl
      | address address =>
          refine .forwarded hother hquiet hnow hexchange hphase hanswer (by simp) rfl
            (isSent_forward exchange r'.port address) ?_
          rw [← hexchanges]
          rfl
      | record s =>
          refine .forwarded hother hquiet hnow hexchange hphase hanswer (by simp) rfl
            (isSent_forward exchange r'.port s.address) ?_
          rw [← hexchanges]
          rfl

theorem quietly_shutDown (r : Router) : r.manager.Quietly r.shutDown.manager :=
  r.shutDown_induction (P := fun m => r.manager.Quietly m) .refl
    fun hm hcancel => hm.step (by simp) hcancel

theorem quietly_giveUp (r : Router) (c : CallerId) : r.manager.Quietly (r.giveUp c).manager :=
  .getD .refl (by simp)

theorem turn_of_request {c : CallerId} (hfresh : r.manager.callers.has c = false)
    (request : Http.Request) (client? : Option Net.Ip) (upgradable : Bool) :
    r.Turn (.request c request client? upgradable) (r.request c request client? upgradable) := by
  unfold Router.request
  split
  next => exact .arrived (by simp) .refl rfl rfl (by simp)
  next key _ =>
    have hstep : r.manager.step (.ensure c key r.wakeTimeout r.stopping) =
        some (r.manager.arrive c key (.ensure r.wakeTimeout) r.stopping) := by
      simp [Manager.step, hfresh]
    refine .arrived (by simp) (.of_step (by simp) hstep) rfl rfl ?_
    intro c' hc'
    obtain rfl := ExchangePhase.ensuring.inj hc'
    have hnone := Table.has_eq_false_iff.mp hfresh
    exact ⟨_, (Manager.find?_callers_arrive hnone _ _ _ _).trans (if_pos rfl), rfl⟩

theorem turn_of_ask {c : CallerId} (hfresh : r.manager.callers.has c = false) (method : String)
    (uri : Http.Uri) : r.Turn (.ask c method uri) (r.ask c method uri) := by
  unfold ask
  split
  next => exact .aside (by simp) .refl rfl
  next domain _ =>
    have hstep : r.manager.step (.lookup c domain) =
        some (r.manager.arrive c domain .lookup false) := by
      simp [Manager.step, hfresh]
    have hquiet : r.manager.Quietly (r.manager.arrive c domain .lookup false) :=
      .of_step (by simp) hstep
    have hother : ∀ key, Event.ask c method uri ≠ .upkeep (.manager (.touch key)) := by simp
    refine turn_of_attend hother ?_ ?_ ?_ c
    · exact hquiet
    · rfl
    · rfl

theorem now_eq_of_subject {e : Manager.Event} {c : CallerId} (hsubject : subject? e = some c)
    {m next : Manager} (hstep : m.step e = some next) : next.now = m.now := by
  cases Manager.move_of_step hstep with
  | undescribed | described | refuse | direct | join | begin | hear | wait => rfl
  | _ => cases hsubject

/-- The watcher notes that a machine was paused, but nothing of what it does is activity. -/
theorem turn_of_upkeep {e : Upkeep.Event} {u : Upkeep} (hother : ∀ heard, e ≠ .manager heard)
    (hu : r.upkeep.step e = some u) : r.Turn (.upkeep e) { r with upkeep := u } := by
  have hquietly : r.manager.Quietly u.manager := by
    rcases Upkeep.manager_of_step hu with hsame | ⟨heard, hheard, hevent | hpaused⟩
    · rw [hsame]
      exact .refl
    · exact absurd hevent (hother heard)
    · obtain ⟨_, _, key, _, _, _, _, _, rfl⟩ := hpaused
      exact .of_step (by simp) hheard
  exact .aside (by simpa using fun key => hother (.touch key)) hquietly rfl

theorem turn_of_step {next : Router} {e : Event} (hstep : r.step e = some next) :
    r.Turn e next := by
  have hother : ∀ {e : Manager.Event}, (∀ key, e ≠ .touch key) → ∀ key,
      Event.upkeep (.manager e) ≠ .upkeep (.manager (.touch key)) := by
    intro e hquiet
    simpa using hquiet
  cases move_of_step hstep with
  | @heard e m c hm hsubject =>
      have hquiet : ∀ key, e ≠ .touch key := by
        rintro key rfl
        cases hsubject
      have hnow : (r.withManager m).now = r.now := now_eq_of_subject hsubject hm
      exact turn_of_attend (hother hquiet) (.of_step hquiet hm) hnow rfl c
  | @unheard e m hm _ _ =>
      by_cases htouch : ∃ key, e = .touch key
      · obtain ⟨key, rfl⟩ := htouch
        obtain rfl := Option.some.inj hm
        exact .touched key rfl rfl
      · have hquiet : ∀ key, e ≠ .touch key := fun key hkey => htouch ⟨key, hkey⟩
        exact .aside (hother hquiet) (.of_step hquiet hm) rfl
  | watched hother hu => exact turn_of_upkeep hother hu
  | @request c request client? upgradable hfresh =>
      exact turn_of_request (Table.has_eq_false_iff.mpr hfresh) request client? upgradable
  | @replied x exchange sent reply hexchange hphase =>
      exact .concluded (by simp) rfl hexchange hphase (.inl ⟨reply, rfl⟩) rfl
  | close hexchange hphase => exact .closed hexchange hphase rfl rfl
  | abandon hexchange hphase =>
      exact .turnedAway (by simp) (quietly_giveUp r _) hexchange hphase (.inr rfl) rfl
  | hangUp hexchange hphase => exact .concluded (by simp) rfl hexchange hphase (.inr rfl) rfl
  | ask hfresh => exact turn_of_ask (Table.has_eq_false_iff.mpr hfresh) _ _
  | expire | dropAsk => exact .aside (by simp) (quietly_giveUp r _) rfl
  | shutDown => exact .aside (by simp) (quietly_shutDown r) rfl

end Router

end WakeRouter
