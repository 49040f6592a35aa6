import WakeRouter.Proofs.Router.Lookups

/-!
# Steps that disturb nothing

`Router.Harmless` is what a step does at most that is taken for a question: the record of the
domain may be made.  A record is made once, and for whoever comes before that the domain has to be
described.
-/

namespace WakeRouter.Router

open Run (Transition trail)

variable {r next last : Router} {e : Event} {a : AskId} {c : CallerId} {method domain : String}
  {t : Transition Router Event}

/-! ## Records that are made -/

/-- In the step the key gets its first record. -/
def Adds (t : Transition Router Event) (key : String) : Prop :=
  t.before.manager.records.find? key = none ∧ t.after.manager.records.find? key ≠ none

theorem not_adds_of_records (hrecords : t.after.manager.records = t.before.manager.records)
    (key : String) : ¬Adds t key := by
  rintro ⟨hnone, hsome⟩
  exact hsome (hrecords ▸ hnone)

/-- No key gets its first record twice. -/
theorem adds_once (hr : r.Known) {es : List Event} (hrun : Run.after? step r es = some last) :
    (trail step r es).Pairwise fun s t => ∀ key, Adds s key → ¬Adds t key := by
  have hall := Run.trail_induction (P := fun ts r => r.Known ∧
    (ts.Pairwise fun s t => ∀ key, Adds s key → ¬Adds t key) ∧
    ∀ t ∈ ts, ∀ key, Adds t key → r.manager.records.find? key ≠ none) ?_ [] ⟨hr, .nil, by simp⟩ hrun
  · exact hall.2.1
  rintro ts r e next ⟨hr, honce, hkept⟩ hstep
  have hstays : ∀ key, r.manager.records.find? key ≠ none →
      next.manager.records.find? key ≠ none := by
    intro key hsome
    obtain ⟨record, hrecord⟩ := Option.ne_none_iff_exists'.mp hsome
    obtain ⟨record', hrecord', -⟩ :=
      Manager.find?_of_reaches hr.reachable.consistent (reaches_of_step hstep) hrecord
    simp [hrecord']
  refine ⟨hr.step hstep, ?_, ?_⟩
  · refine List.pairwise_append.mpr ⟨honce, List.pairwise_singleton _ _, ?_⟩
    intro s hs t ht key hadds hagain
    obtain rfl := List.mem_singleton.mp ht
    exact hkept s hs key hadds hagain.1
  · refine forall_mem_concat (fun t ht key hadds => hstays key (hkept t ht key hadds)) ?_
    exact fun key hadds => hadds.2

theorem unknown_of_run {es : List Event} (hrun : Run.after? step r es = some last) {key : String}
    (hnone : r.manager.records.find? key = none) (hnobody : ∀ t ∈ trail step r es, ¬Adds t key) :
    last.manager.records.find? key = none := by
  have hall := Run.trail_induction (P := fun ts r => (∀ t ∈ ts, ¬Adds t key) →
    r.manager.records.find? key = none) ?_ [] (fun _ => hnone) hrun
  · exact hall hnobody
  · intro ts r e next hnone _ hnobody
    apply Decidable.byContradiction
    intro hsome
    exact hnobody _ List.mem_concat_self
      ⟨hnone fun t ht => hnobody t (List.mem_append_left _ ht), hsome⟩

/-- Whoever comes for the key has it described. -/
def Unknown (r : Router) (key : String) : Prop :=
  ∀ c,
    (∀ method uri, Ask.question? method uri = .ok key →
      r.call? (.ask c method uri) = some (.describe c key)) ∧
    ∀ request client? upgradable, requestKey? request.headers request.uri = some key →
      r.call? (.request c request client? upgradable) = some (.describe c key)

theorem unknown_of_none {key : String} (hnone : r.manager.records.find? key = none) :
    r.Unknown key := by
  intro c
  constructor
  · intro method uri hquestion
    simp [call?, hquestion, Manager.call?, hnone]
  · intro request client? upgradable hkey
    simp [call?, hkey, Manager.call?, hnone]

/-! ## Steps that disturb nothing -/

/-- The step wakes and pauses nothing, and leaves all records as they are.  Only the domain may
be described in it, or get its first record. -/
structure Harmless (t : Transition Router Event) (domain? : Option String) : Prop where
  calls : ∀ call, t.before.call? t.event = some call →
    ∃ c domain, domain? = some domain ∧ call = .describe c domain
  wakes : t.after.manager.wakes = t.before.manager.wakes
  upkeep : t.after.upkeep = { t.before.upkeep with manager := t.after.manager }
  kept : ∀ key record, t.before.manager.records.find? key = some record →
    t.after.manager.records.find? key = some record
  added : ∀ key, Adds t key → domain? = some key

theorem harmless_of_records {domain? : Option String} (hcall : t.before.call? t.event = none)
    (hwakes : t.after.manager.wakes = t.before.manager.wakes)
    (hupkeep : t.after.upkeep = { t.before.upkeep with manager := t.after.manager })
    (hrecords : t.after.manager.records = t.before.manager.records) : Harmless t domain? := by
  refine ⟨by simp [hcall], hwakes, hupkeep, ?_, ?_⟩
  · intro key record hrecord
    rw [hrecords, hrecord]
  · intro key hadds
    exact absurd hadds (not_adds_of_records hrecords key)

theorem giveUp_frame (r : Router) (c : CallerId) :
    (r.giveUp c).manager.wakes = r.manager.wakes ∧
      (r.giveUp c).upkeep = { r.upkeep with manager := (r.giveUp c).manager } := by
  refine ⟨?_, rfl⟩
  show ((r.manager.step (.leave c)).getD r.manager).wakes = _
  cases hleave : r.manager.step (.leave c) with
  | none => rfl
  | some m =>
      cases Manager.move_of_step hleave with
      | leave => rfl

/-- The manager hears of the caller of a lookup, and no request goes on with that. -/
theorem upkeep_of_lookup (hr : r.Known) {caller : Caller}
    (hcaller : r.manager.callers.find? c = some caller) (hpurpose : caller.purpose = .lookup)
    {heard : Manager.Event} (hevent : heard.caller? = some c)
    (hstep : r.step (.upkeep (.manager heard)) = some next) :
    r.manager.step heard = some next.manager ∧
      next.upkeep = { r.upkeep with manager := next.manager } := by
  cases move_of_step hstep with
  | @heard _ m c' hheard hsubject =>
      obtain rfl : c' = c := by simpa [subject?_eq_caller? hsubject] using hevent
      have hattended := attended (r.withManager m) c'
      generalize (r.withManager m).attend c' = next at hattended
      cases hattended with
      | aside | told => exact ⟨hheard, rfl⟩
      | dispatched _ hexchange hphase =>
          obtain ⟨-, owner, timeout, howner, -, hwants⟩ := hr.sound.ensuring hexchange hphase
          obtain rfl := Option.some.inj (hcaller.symm.trans howner)
          cases hpurpose.symm.trans hwants
  | unheard hheard => exact ⟨hheard, rfl⟩
  | watched hother => exact absurd rfl (hother heard)

/-- What concerns a question about the domain disturbs nothing. -/
theorem harmless_of_concerns (hr : r.Known) {caller : Caller}
    (hcaller : r.manager.callers.find? c = some caller) (hpurpose : caller.purpose = .lookup)
    (hconcerns : Concerns e a c) (hstep : r.step e = some next) :
    Harmless ⟨r, e, next⟩ (some caller.key) := by
  rcases hconcerns with rfl | rfl | ⟨heard, rfl, hevent⟩
  · cases move_of_step hstep with
    | @expire _ _ c' =>
        obtain ⟨hwakes, hupkeep⟩ := giveUp_frame r c'
        exact harmless_of_records rfl hwakes hupkeep (records_giveUp r c')
  · cases move_of_step hstep with
    | @dropAsk _ _ c' =>
        obtain ⟨hwakes, hupkeep⟩ := giveUp_frame r c'
        exact harmless_of_records rfl hwakes hupkeep (records_giveUp r c')
  · obtain ⟨hheard, hupkeep⟩ := upkeep_of_lookup hr hcaller hpurpose hevent hstep
    have hmove := Manager.lookupMove_of_step hr.reachable hcaller hpurpose hevent hheard
    have hfind : ∀ key, next.manager.records.find? key = r.manager.records.find? key ∨
        key = caller.key ∧ r.manager.records.find? key = none := by
      intro key
      rcases hmove.records_eq with hrecords | ⟨record, hrecords⟩
      · exact .inl (by rw [hrecords])
      · rw [hrecords, Table.find?_addNew]
        split
        next hkey =>
          subst hkey
          cases r.manager.records.find? caller.key with
          | none => exact .inr ⟨rfl, rfl⟩
          | some old => exact .inl rfl
        next => exact .inl rfl
    constructor
    case calls =>
      intro call hcall
      cases hmove.call?_eq.symm.trans hcall
    case wakes => exact hmove.wakes_eq
    case upkeep => exact hupkeep
    case kept =>
      intro key record hrecord
      rcases hfind key with hsame | ⟨-, hnone⟩
      · exact hsame.trans hrecord
      · cases hrecord.symm.trans hnone
    case added =>
      rintro key ⟨hnone, hsome⟩
      rcases hfind key with hsame | ⟨rfl, -⟩
      · exact absurd (hsame.trans hnone) hsome
      · rfl

/-- A question that is looked up disturbs nothing when it comes, and makes no record. -/
theorem harmless_ask (hr : r.Known) (hfresh : r.manager.callers.find? c = none) {uri : Http.Uri}
    (hquestion : Ask.question? method uri = .ok domain) :
    Harmless ⟨r, .ask c method uri, r.ask c method uri⟩ (some domain) ∧
      (r.ask c method uri).manager.records = r.manager.records := by
  have hupkeep : (r.ask c method uri).upkeep = (r.withQuestion c method domain).upkeep := by
    cases hrecord : r.manager.records.find? domain with
    | none => rw [(ask_of_unknown hr hfresh hquestion hrecord).1]
    | some record => exact (ask_of_known hr hfresh hquestion hrecord).1
  have hmanager : (r.ask c method uri).manager = (r.withQuestion c method domain).manager :=
    congrArg Upkeep.manager hupkeep
  have hrecords : (r.ask c method uri).manager.records = r.manager.records := by
    rw [hmanager]
    rfl
  refine ⟨?_, hrecords⟩
  constructor
  case calls =>
    intro call hcall
    simp only [call?, hquestion, Manager.call?, Option.ite_none_right_eq_some,
      Option.some.injEq] at hcall
    exact ⟨c, domain, rfl, hcall.2.symm⟩
  case wakes =>
    show (r.ask c method uri).manager.wakes = r.manager.wakes
    rw [hmanager]
    rfl
  case upkeep =>
    show (r.ask c method uri).upkeep = { r.upkeep with manager := (r.ask c method uri).manager }
    rw [hmanager, hupkeep]
    rfl
  case kept =>
    intro key record hrecord
    exact hrecords ▸ hrecord
  case added =>
    intro key hadds
    exact absurd hadds (not_adds_of_records hrecords key)

end WakeRouter.Router
