import WakeRouter.Router

/-!
# What one event does to the router

`Router.Move` lists the events with their guards and what becomes of the router, and
`Router.Attended` what becomes of it when a caller may have its answer.
-/

namespace WakeRouter.Router

/-- The events that can happen, and what each does. -/
inductive Move (r : Router) : Event → Router → Prop
  /-- The manager hears of an event after which a caller may have its answer. -/
  | heard {e : Manager.Event} {m : Manager} {c : CallerId} (hm : r.manager.step e = some m)
      (hsubject : subject? e = some c) : Move r (.upkeep (.manager e)) ((r.withManager m).attend c)
  | unheard {e : Manager.Event} {m : Manager} (hm : r.manager.step e = some m)
      (hsubject : subject? e = none) (hfree : ∀ c, withdrawn? e = some c → r.owns c = false) :
      Move r (.upkeep (.manager e)) (r.withManager m)
  | watched {e : Upkeep.Event} {u : Upkeep} (hother : ∀ heard, e ≠ .manager heard)
      (hu : r.upkeep.step e = some u) : Move r (.upkeep e) { r with upkeep := u }
  | request {c : CallerId} {request : Http.Request} {client? : Option Net.Ip} {upgradable : Bool}
      (hfresh : r.manager.callers.find? c = none) :
      Move r (.request c request client? upgradable) (r.request c request client? upgradable)
  | replied {x : ExchangeId} {exchange : Exchange} {sent : Http.Request} {reply : Http.Reply}
      (hexchange : r.exchanges[x]? = some exchange) (hphase : exchange.phase = .forwarded sent) :
      Move r (.replied x reply) (r.setExchange x (exchange.conclude reply))
  | close {x : ExchangeId} {exchange : Exchange} {response : Http.Response}
      (hexchange : r.exchanges[x]? = some exchange)
      (hphase : exchange.phase = .tunnelling response) :
      Move r (.close x)
        ((r.withManager (r.manager.touch exchange.key)).setExchange x (.closed response))
  | abandon {x : ExchangeId} {exchange : Exchange} {c : CallerId}
      (hexchange : r.exchanges[x]? = some exchange) (hphase : exchange.phase = .ensuring c) :
      Move r (.dropRequest x) ((r.giveUp c).setExchange x .dropped)
  | hangUp {x : ExchangeId} {exchange : Exchange} {sent : Http.Request}
      (hexchange : r.exchanges[x]? = some exchange) (hphase : exchange.phase = .forwarded sent) :
      Move r (.dropRequest x) (r.setExchange x .dropped)
  | ask {c : CallerId} {method : String} {uri : Http.Uri}
      (hfresh : r.manager.callers.find? c = none) : Move r (.ask c method uri) (r.ask c method uri)
  | expire {a : AskId} {ask : Ask} {c : CallerId} {since : Instant}
      (hask : r.asks[a]? = some ask) (hphase : ask.phase = .looking c since)
      (hlate : since + Ask.limit.nanos ≤ r.now) :
      Move r (.expire a) ((r.giveUp c).setAsk a (.answered .lookupFailed))
  | dropAsk {a : AskId} {ask : Ask} {c : CallerId} {since : Instant}
      (hask : r.asks[a]? = some ask) (hphase : ask.phase = .looking c since) :
      Move r (.dropAsk a) ((r.giveUp c).setAsk a .dropped)
  | shutDown : Move r .shutDown r.shutDown

/-- What becomes of the router when it goes on with what the caller belongs to. -/
inductive Attended (r : Router) (c : CallerId) : Router → Prop
  | aside (hnothing : (r.manager.callers.find? c).bind Caller.answer? = none ∨ r.owns c = false) :
      Attended r c r
  | dispatched {x : ExchangeId} {exchange : Exchange} {a : Answer}
      (hanswer : (r.manager.callers.find? c).bind Caller.answer? = some a)
      (hexchange : r.exchanges[x]? = some exchange) (hphase : exchange.phase = .ensuring c) :
      Attended r c (r.dispatch x exchange a)
  | told {a : AskId} {ask : Ask} {since : Instant} {answer : Answer}
      (hanswer : (r.manager.callers.find? c).bind Caller.answer? = some answer)
      (hexchanges : ∀ exchange ∈ r.exchanges, exchange.phase ≠ .ensuring c)
      (hask : r.asks[a]? = some ask) (hphase : ask.phase = .looking c since) :
      Attended r c (r.setAsk a (.answered (.ofAnswer answer)))

variable {r next : Router}

theorem isLooking_iff {ask : Ask} {c : CallerId} :
    ask.isLooking c ↔ ∃ since, ask.phase = .looking c since := by
  unfold Ask.isLooking
  cases ask.phase <;> simp

theorem attended (r : Router) (c : CallerId) : r.Attended c (r.attend c) := by
  unfold attend
  split
  next hnone => exact .aside (.inl hnone)
  next answer hanswer =>
    split
    next x hfound =>
      obtain ⟨hx, hensuring, _⟩ := List.findIdx?_eq_some_iff_getElem.mp hfound
      have hexchange := List.getElem?_eq_getElem hx
      rw [hexchange]
      exact .dispatched hanswer hexchange (by simpa [Exchange.isEnsuring] using hensuring)
    next a hnone hfound =>
      obtain ⟨ha, hlooking, _⟩ := List.findIdx?_eq_some_iff_getElem.mp hfound
      obtain ⟨since, hphase⟩ := isLooking_iff.mp hlooking
      refine .told hanswer (fun exchange hexchange => ?_) (List.getElem?_eq_getElem ha) hphase
      simpa [Exchange.isEnsuring] using List.findIdx?_eq_none_iff.mp hnone exchange hexchange
    next hexchanges hasks =>
      refine .aside (.inr ?_)
      rw [List.findIdx?_eq_none_iff] at hexchanges hasks
      simpa [owns] using ⟨hexchanges, hasks⟩

/-- Shutting down does nothing to the manager but cancel callers. -/
theorem shutDown_induction {P : Manager → Prop} (r : Router) (hfirst : P r.manager)
    (hstep : ∀ {m m' c}, P m → m.step (.cancel c) = some m' → P m') : P r.shutDown.manager := by
  show P (r.exchanges.foldl _ r.manager)
  generalize r.manager = m at hfirst
  induction r.exchanges generalizing m with
  | nil => exact hfirst
  | cons exchange rest ih =>
      rw [List.foldl_cons]
      apply ih
      split
      next c _ =>
        cases hcancel : m.step (.cancel c) with
        | none => exact hfirst
        | some m' => exact hstep hfirst hcancel
      next => exact hfirst

theorem move_of_manager {e : Manager.Event}
    (hstep : r.step (.upkeep (.manager e)) = some next) :
    r.Move (.upkeep (.manager e)) next := by
  simp only [step, Option.ite_none_left_eq_some] at hstep
  obtain ⟨hfree, hstep⟩ := hstep
  obtain ⟨m, hm, rfl⟩ := Option.map_eq_some_iff.mp hstep
  split
  next c hsubject => exact .heard hm hsubject
  next hsubject =>
    refine .unheard hm hsubject fun c hc => ?_
    simpa [hc] using hfree

theorem move_of_step {e : Event} (hstep : r.step e = some next) : r.Move e next := by
  cases e with
  | upkeep e =>
      cases e with
      | manager e => exact move_of_manager hstep
      | install | discard | start | stop | enter | ring | settle | quit | tick | begin | paused
      | breakDown | dropTick =>
          simp only [step] at hstep
          obtain ⟨u, hu, rfl⟩ := Option.map_eq_some_iff.mp hstep
          exact .watched (by simp) hu
  | request c request client? upgradable =>
      simp only [step, Option.ite_none_left_eq_some, Option.some.injEq, Bool.not_eq_true] at hstep
      exact hstep.2 ▸ .request (Table.has_eq_false_iff.mp hstep.1)
  | replied x reply =>
      simp only [step, bind, Option.bind_eq_some_iff] at hstep
      obtain ⟨exchange, hexchange, hstep⟩ := hstep
      split at hstep
      next hphase =>
        obtain rfl := Option.some.inj hstep
        exact .replied hexchange hphase
      next => cases hstep
  | close x =>
      simp only [step, bind, Option.bind_eq_some_iff] at hstep
      obtain ⟨exchange, hexchange, hstep⟩ := hstep
      split at hstep
      next hphase =>
        obtain rfl := Option.some.inj hstep
        exact .close hexchange hphase
      next => cases hstep
  | dropRequest x =>
      simp only [step, bind, Option.bind_eq_some_iff] at hstep
      obtain ⟨exchange, hexchange, hstep⟩ := hstep
      split at hstep
      next hphase =>
        obtain rfl := Option.some.inj hstep
        exact .abandon hexchange hphase
      next hphase =>
        obtain rfl := Option.some.inj hstep
        exact .hangUp hexchange hphase
      next => cases hstep
  | ask c method uri =>
      simp only [step, Option.ite_none_left_eq_some, Option.some.injEq, Bool.not_eq_true] at hstep
      exact hstep.2 ▸ .ask (Table.has_eq_false_iff.mp hstep.1)
  | expire a =>
      simp only [step, bind, Option.bind_eq_some_iff] at hstep
      obtain ⟨ask, hask, hstep⟩ := hstep
      split at hstep
      next hphase =>
        rw [Option.ite_none_right_eq_some, Option.some.injEq] at hstep
        exact hstep.2 ▸ .expire hask hphase hstep.1
      next => cases hstep
  | dropAsk a =>
      simp only [step, bind, Option.bind_eq_some_iff] at hstep
      obtain ⟨ask, hask, hstep⟩ := hstep
      split at hstep
      next hphase =>
        obtain rfl := Option.some.inj hstep
        exact .dropAsk hask hphase
      next => cases hstep
  | shutDown =>
      obtain rfl := Option.some.inj hstep
      exact .shutDown

end WakeRouter.Router
