import WakeRouter.Proofs.Router.Step
import WakeRouter.Proofs.Watcher.Exclusion

/-!
# What the router does to its upkeep

Requests and questions reach the manager as visits: a caller comes, is cancelled or goes away,
or a machine is used.  `Router.heard_of_step` takes a step of the router apart into the one
event that its upkeep hears of, if there is one, and the visits that come of it.
-/

namespace WakeRouter

namespace Manager

def Event.isVisit : Event → Bool
  | .lookup .. | .ensure .. | .cancel _ | .leave _ | .touch _ => true
  | _ => false

/-- Nothing has happened to the first manager but visits. -/
abbrev Visited (m : Manager) : Manager → Prop :=
  Run.ReachesBy step (fun e => e.isVisit) m

theorem Lined.visited {m m' : Manager} (hm : m.Consistent) {key handle : String}
    {rest : List String} (hlined : m.Lined key handle rest) (hvisited : m.Visited m') :
    m'.Lined key handle rest := by
  refine (hm.invariant (P := fun n => n.Lined key handle rest) ?_ hvisited hlined).2
  intro n e next hn hlined hvisit hstep
  apply hlined.step hn.wakes hstep
  rintro key' rfl
  cases hvisit

end Manager

namespace Upkeep

/-- Nothing has happened but visits to the manager. -/
structure Visited (u u' : Upkeep) : Prop where
  manager : u.manager.Visited u'.manager
  ticks_eq : u'.ticks = u.ticks

theorem Visited.refl (u : Upkeep) : u.Visited u :=
  ⟨.refl, rfl⟩

theorem Visited.trans {u u' u'' : Upkeep} (hu : u.Visited u') (hu' : u'.Visited u'') :
    u.Visited u'' :=
  ⟨hu.manager.trans hu'.manager, hu'.ticks_eq.trans hu.ticks_eq⟩

theorem Guarded.visited {u u' : Upkeep} (hu : u.Guarded) (hvisited : u.Visited u') :
    u'.Guarded := by
  obtain ⟨hmanager, hticks⟩ := hvisited
  constructor
  case consistent => exact hu.consistent.reaches hmanager
  case lined =>
    intro t tick key handle rest htick hphase
    rw [hticks] at htick
    exact (hu.lined htick hphase).visited hu.consistent hmanager

end Upkeep

namespace Router

variable (r : Router)

theorem visited_touch (key : String) :
    r.upkeep.Visited (r.withManager (r.manager.touch key)).upkeep :=
  ⟨.of_step (e := .touch key) rfl rfl, rfl⟩

theorem visited_dispatch (x : ExchangeId) (exchange : Exchange) (a : Answer) :
    r.upkeep.Visited (r.dispatch x exchange a).upkeep := by
  cases a with
  | error => exact .refl _
  | address | record => exact visited_touch r exchange.key

theorem visited_attend (c : CallerId) : r.upkeep.Visited (r.attend c).upkeep := by
  have hattended := attended r c
  generalize r.attend c = next at hattended
  cases hattended with
  | aside | told => exact .refl _
  | dispatched => exact visited_dispatch r _ _ _

theorem visited_giveUp (c : CallerId) : r.upkeep.Visited (r.giveUp c).upkeep :=
  ⟨.getD .refl rfl, rfl⟩

theorem visited_request {c : CallerId} (hfresh : r.manager.callers.has c = false)
    (request : Http.Request) (client? : Option Net.Ip) (upgradable : Bool) :
    r.upkeep.Visited (r.request c request client? upgradable).upkeep := by
  unfold Router.request
  split
  · exact .refl _
  next key _ =>
    have hstep : r.manager.step (.ensure c key r.wakeTimeout r.stopping) =
        some (r.manager.arrive c key (.ensure r.wakeTimeout) r.stopping) := by
      simp [Manager.step, hfresh]
    exact ⟨.of_step rfl hstep, rfl⟩

theorem visited_ask {c : CallerId} (hfresh : r.manager.callers.has c = false) (method : String)
    (uri : Http.Uri) : r.upkeep.Visited (r.ask c method uri).upkeep := by
  unfold ask
  split
  · exact .refl _
  next domain _ =>
    have hstep : r.manager.step (.lookup c domain) =
        some (r.manager.arrive c domain .lookup false) := by
      simp [Manager.step, hfresh]
    refine Upkeep.Visited.trans ?_ (visited_attend _ c)
    exact ⟨.of_step rfl hstep, rfl⟩

theorem visited_shutDown : r.upkeep.Visited r.shutDown.upkeep :=
  ⟨r.shutDown_induction (P := fun m => r.manager.Visited m) .refl
    fun hm hcancel => hm.step rfl hcancel, rfl⟩

variable {r}

/-- What a step does to the upkeep of the router. -/
inductive Heard (r : Router) : Event → Upkeep → Prop
  | own {e : Upkeep.Event} {u u' : Upkeep} (hstep : r.upkeep.step e = some u)
      (hvisited : u.Visited u') : Heard r (.upkeep e) u'
  | visits {e : Event} {u' : Upkeep} (hother : ∀ own, e ≠ .upkeep own)
      (hvisited : r.upkeep.Visited u') : Heard r e u'

theorem Heard.own_of_upkeep {e : Upkeep.Event} {u' : Upkeep} (hheard : r.Heard (.upkeep e) u') :
    ∃ u, r.upkeep.step e = some u ∧ u.Visited u' := by
  cases hheard with
  | own hstep hvisited => exact ⟨_, hstep, hvisited⟩
  | visits hother _ => exact absurd rfl (hother e)

theorem heard_of_step {next : Router} {e : Event} (hstep : r.step e = some next) :
    r.Heard e next.upkeep := by
  have hown : ∀ {e : Manager.Event} {m : Manager}, r.manager.step e = some m →
      r.upkeep.step (.manager e) = some { r.upkeep with manager := m } :=
    fun hm => Option.map_eq_some_iff.mpr ⟨_, hm, rfl⟩
  cases move_of_step hstep with
  | @heard e m c hm _ => exact .own (hown hm) (visited_attend (r.withManager m) c)
  | unheard hm _ _ => exact .own (hown hm) (.refl _)
  | watched _ hu => exact .own hu (.refl _)
  | @request c request client? upgradable hfresh =>
      have hfresh := Table.has_eq_false_iff.mpr hfresh
      exact .visits (by simp) (visited_request r hfresh request client? upgradable)
  | replied | hangUp => exact .visits (by simp) (.refl r.upkeep)
  | @close x exchange => exact .visits (by simp) (visited_touch r exchange.key)
  | abandon | expire | dropAsk => exact .visits (by simp) (visited_giveUp r _)
  | @ask c method uri hfresh =>
      exact .visits (by simp) (visited_ask r (Table.has_eq_false_iff.mpr hfresh) method uri)
  | shutDown => exact .visits (by simp) (visited_shutDown r)

end Router

end WakeRouter
