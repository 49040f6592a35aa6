import WakeRouter.Proofs.Manager.Activity
import WakeRouter.Proofs.Router.Turns

/-!
# Open tunnels and idle keys

A tunnel counts as activity of its key when it opens and when it ends, but not in between.
`Router.tunnel_idle_iff` says from when on a key is idle that has an open tunnel, and
`Router.not_sessionsBusy_longSession` shows a tunnel whose machine is paused.
-/

namespace WakeRouter

namespace Manager

variable {m m' next : Manager}

/-! ## Records on the way -/

/-- The records stay, with their activity, and new ones have none from before. -/
structure Recent (m m' : Manager) : Prop where
  kept : ∀ {key r}, m.records.find? key = some r →
    ∃ r', m'.records.find? key = some r' ∧ r'.lastActivity = r.lastActivity
  fresh : ∀ {key r'}, m.records.find? key = none → m'.records.find? key = some r' →
    m.now ≤ r'.lastActivity

theorem recent_of_quietly (hm : m.Consistent) (hquiet : m.Quietly m') : m.Recent m' := by
  induction hquiet with
  | refl =>
      constructor
      case kept => exact fun hr => ⟨_, hr, rfl⟩
      case fresh =>
        intro key r' hnone hr'
        rw [hnone] at hr'
        cases hr'
  | @step m' next e hbefore hother hstep ih =>
      have hwakes := (hm.reaches hbefore).wakes
      constructor
      case kept =>
        intro key r hr
        obtain ⟨r', hr', hsame⟩ := ih.kept hr
        have hchange := recordChange_of_step hwakes hstep key
        rw [hr'] at hchange
        obtain ⟨r'', hr'', _⟩ := hchange.some_of_some
        rw [hr''] at hchange
        exact ⟨r'', hr'', (hchange.lastActivity_eq (hother key)).trans hsame⟩
      case fresh =>
        intro key r'' hnone hr''
        have hchange := recordChange_of_step hwakes hstep key
        rw [hr''] at hchange
        cases hr' : m'.records.find? key with
        | none =>
            rw [hr'] at hchange
            obtain ⟨_, _, nodes, _, _, _, rfl⟩ := hchange.of_none
            rw [Record.lastActivity_ofNodes]
            exact now_le_of_reaches hbefore
        | some r' =>
            rw [hr'] at hchange
            rw [hchange.lastActivity_eq (hother key)]
            exact ih.fresh hnone hr'

/-! ## Callers that are served -/

/-- Whoever was told anything but an error asked for a key that has a record. -/
def AnswersKnown (m : Manager) : Prop :=
  ∀ c caller a, m.callers.find? c = some caller → caller.phase = .answered a →
    (∀ cause, a ≠ .error cause) → ∃ r, m.records.find? caller.key = some r

theorem answersKnown_start (deadline : Duration) : (start deadline).AnswersKnown := by
  intro c caller a hcaller
  simp [start] at hcaller

theorem find?_of_reception {key : String} {purpose : Purpose} {a : Answer}
    (hphase : m.reception key purpose = .answered a) : ∃ r, m.records.find? key = some r := by
  unfold reception at hphase
  cases hrecord : m.records.find? key with
  | none => simp [hrecord] at hphase
  | some r => exact ⟨r, rfl⟩

theorem AnswersKnown.step (hm : m.Consistent) (hknown : m.AnswersKnown) {e : Event}
    (hstep : m.step e = some next) : next.AnswersKnown := by
  intro c caller a hcaller hphase hserved
  have hstays : ∀ key r, m.records.find? key = some r → ∃ r', next.records.find? key = some r' := by
    intro key r hr
    have hchange := recordChange_of_step hm.wakes hstep key
    rw [hr] at hchange
    obtain ⟨r', hr', _⟩ := hchange.some_of_some
    exact ⟨r', hr'⟩
  have hmove := callerMove_of_step hstep c
  rw [hcaller] at hmove
  generalize hbefore : m.callers.find? c = before at hmove
  cases hmove with
  | kept =>
      obtain ⟨r, hr⟩ := hknown c caller a hbefore hphase hserved
      exact hstays _ r hr
  | looks key =>
      have hanswered : m.reception key .lookup = .answered a := hphase
      obtain ⟨r, hr⟩ := find?_of_reception hanswered
      exact hstays key r hr
  | comes key timeout => exact absurd hphase (reception_ensure_ne_answered m key timeout a)
  | undescribed => exact absurd (CallerPhase.answered.inj hphase).symm (hserved _)
  | refused => exact absurd (CallerPhase.answered.inj hphase).symm (hserved _)
  | @described old nodes =>
      obtain ⟨r, hr, hrecord, _⟩ := find?_of_described hbefore hstep
      exact ⟨r, hrecord⟩
  | direct _ hrecord => exact hstays _ _ hrecord
  | waits => cases hphase
  | @hears old w a' hwaiting hverdict =>
      -- The caller waited for a wake, which has a record that it came from.
      obtain ⟨wake, hwake, hkey⟩ := hm.callers.awaited hbefore hwaiting
      obtain ⟨r, hr, _⟩ := hm.wakes.target hwake
      exact hstays old.key r (hkey ▸ hr)
  | @cancelled old =>
      obtain ⟨r, hr⟩ := hknown c old a hbefore hphase hserved
      exact hstays _ r hr
  | leaves => cases hphase

theorem AnswersKnown.quietly (hm : m.Consistent) (hknown : m.AnswersKnown)
    (hquiet : m.Quietly m') : m'.AnswersKnown :=
  (hm.invariant (P := AnswersKnown) (fun hn hknown _ hstep => hknown.step hn hstep) hquiet
    hknown).2

end Manager

namespace Router

variable {r next : Router} {ts : List (Run.Transition Router Event)}

/-! ## Uses of a key -/

/-- In the step a request for the key goes on to its machine. -/
def Forwards (t : Run.Transition Router Event) (x : ExchangeId) (key : String) : Prop :=
  ∃ (old new : Exchange) (c : CallerId), t.before.exchanges[x]? = some old ∧
    t.after.exchanges[x]? = some new ∧ old.key = key ∧ old.phase = .ensuring c ∧ new.phase.isSent

/-- In the step a tunnel to the machine of the key ends. -/
def Closes (t : Run.Transition Router Event) (x : ExchangeId) (key : String) : Prop :=
  ∃ (old new : Exchange) (response : Http.Response), t.before.exchanges[x]? = some old ∧
    t.after.exchanges[x]? = some new ∧ old.key = key ∧ old.phase = .tunnelling response ∧
    new.phase = .closed response

/-- The step is activity of the key. -/
def Uses (t : Run.Transition Router Event) (key : String) : Prop :=
  (∃ x, Forwards t x key ∨ Closes t x key) ∨ t.event = .upkeep (.manager (.touch key))

theorem Forwards.changes {t : Run.Transition Router Event} {x : ExchangeId} {key : String}
    (hforwards : Forwards t x key) : t.after.exchanges[x]? ≠ t.before.exchanges[x]? := by
  obtain ⟨old, new, c, hold, hnew, _, hensuring, hsent⟩ := hforwards
  intro hsame
  rw [hold, hnew, Option.some.injEq] at hsame
  rw [hsame, hensuring] at hsent
  cases hsent

theorem Closes.changes {t : Run.Transition Router Event} {x : ExchangeId} {key : String}
    (hcloses : Closes t x key) : t.after.exchanges[x]? ≠ t.before.exchanges[x]? := by
  obtain ⟨old, new, response, hold, hnew, _, htunnelling, hclosed⟩ := hcloses
  intro hsame
  rw [hold, hnew, Option.some.injEq] at hsame
  rw [hsame, htunnelling] at hclosed
  cases hclosed

theorem not_uses_of_kept {t : Run.Transition Router Event} {key : String}
    (hother : t.event ≠ .upkeep (.manager (.touch key)))
    (hkept : ∀ (x : ExchangeId) (old : Exchange), t.before.exchanges[x]? = some old →
      t.after.exchanges[x]? = some old) : ¬Uses t key := by
  rintro (⟨x, hforwards | hcloses⟩ | htouch)
  · obtain ⟨old, _, _, hold, _⟩ := id hforwards
    exact hforwards.changes ((hkept x old hold).trans hold.symm)
  · obtain ⟨old, _, _, hold, _⟩ := id hcloses
    exact hcloses.changes ((hkept x old hold).trans hold.symm)
  · exact hother htouch

/-- What a step that moves one exchange on is a use of. -/
theorem Uses.of_withPhase {t : Run.Transition Router Event} {key : String} (huses : Uses t key)
    (hother : t.event ≠ .upkeep (.manager (.touch key))) {x : ExchangeId} {exchange : Exchange}
    {phase : ExchangePhase} (hexchange : t.before.exchanges[x]? = some exchange)
    (hafter : t.after.exchanges = withPhase t.before.exchanges x phase) :
    exchange.key = key ∧ ((∃ c, exchange.phase = .ensuring c ∧ phase.isSent) ∨
      ∃ response, exchange.phase = .tunnelling response ∧ phase = .closed response) := by
  have hself : t.after.exchanges[x]? = some { exchange with phase := phase } := by
    rw [hafter, getElem?_withPhase, if_pos rfl, hexchange, Option.map_some]
  have hone : ∀ y, t.after.exchanges[y]? ≠ t.before.exchanges[y]? → y = x := by
    intro y hchanges
    apply Decidable.byContradiction
    intro hne
    rw [hafter, getElem?_withPhase, if_neg hne] at hchanges
    exact hchanges rfl
  rcases huses with ⟨y, hforwards | hcloses⟩ | htouch
  · obtain rfl := hone y hforwards.changes
    obtain ⟨old, new, c, hold, hnew, hkey, hensuring, hsent⟩ := hforwards
    rw [hexchange, Option.some.injEq] at hold
    rw [hself, Option.some.injEq] at hnew
    subst hold hnew
    exact ⟨hkey, .inl ⟨c, hensuring, hsent⟩⟩
  · obtain rfl := hone y hcloses.changes
    obtain ⟨old, new, response, hold, hnew, hkey, htunnelling, hclosed⟩ := hcloses
    rw [hexchange, Option.some.injEq] at hold
    rw [hself, Option.some.injEq] at hnew
    subst hold hnew
    exact ⟨hkey, .inr ⟨response, htunnelling, hclosed⟩⟩
  · exact absurd htouch hother

/-! ## Activity and uses -/

/-- The activity of the keys is what the steps so far tell. -/
structure Accounts (ts : List (Run.Transition Router Event)) (m : Manager)
    (exchanges : List Exchange) : Prop where
  consistent : m.Consistent
  answers : m.AnswersKnown
  owners : ∀ {x : ExchangeId} {exchange : Exchange} {c : CallerId},
    exchanges[x]? = some exchange → exchange.phase = .ensuring c →
    ∃ caller, m.callers.find? c = some caller ∧ caller.key = exchange.key
  past : ∀ {t}, t ∈ ts → t.before.now ≤ m.now
  uses : ∀ {t key record}, t ∈ ts → Uses t key → m.records.find? key = some record →
    t.before.now ≤ record.lastActivity
  latest : ∀ {x : ExchangeId} {exchange : Exchange}, exchanges[x]? = some exchange →
    exchange.phase.isUnderWay →
    ∃ record t, m.records.find? exchange.key = some record ∧ t ∈ ts ∧ Uses t exchange.key ∧
      t.before.now = record.lastActivity
  opened : ∀ {x : ExchangeId} {exchange : Exchange}, exchanges[x]? = some exchange →
    exchange.phase.isUnderWay → ∃ t ∈ ts, Forwards t x exchange.key

variable {m m' : Manager} {exchanges : List Exchange} {t : Run.Transition Router Event}

theorem accounts_start (deadline : Duration) : Accounts [] (.start deadline) [] := by
  constructor
  case consistent => exact Manager.consistent_start deadline
  case answers => exact Manager.answersKnown_start deadline
  case owners => intro x exchange c hexchange; cases hexchange
  case past => intro t ht; cases ht
  case uses => intro t key record ht; cases ht
  case latest => intro x exchange hexchange; cases hexchange
  case opened => intro x exchange hexchange; cases hexchange

theorem Accounts.quietly (ha : Accounts ts m exchanges) (hquiet : m.Quietly m') :
    Accounts ts m' exchanges := by
  have hrecent := Manager.recent_of_quietly ha.consistent hquiet
  constructor
  case consistent => exact ha.consistent.reaches hquiet
  case answers => exact ha.answers.quietly ha.consistent hquiet
  case owners =>
    intro x exchange c hexchange hensuring
    obtain ⟨caller, hcaller, hkey⟩ := ha.owners hexchange hensuring
    obtain ⟨caller', hcaller', hsame, _⟩ := Manager.find?_caller_of_reaches hquiet hcaller
    exact ⟨caller', hcaller', hsame.trans hkey⟩
  case past => exact fun ht => Nat.le_trans (ha.past ht) (Manager.now_le_of_reaches hquiet)
  case uses =>
    intro t key record ht huses hrecord
    cases hbefore : m.records.find? key with
    | none => exact Nat.le_trans (ha.past ht) (hrecent.fresh hbefore hrecord)
    | some old =>
        obtain ⟨record', hrecord', hsame⟩ := hrecent.kept hbefore
        rw [hrecord, Option.some.injEq] at hrecord'
        rw [hrecord', hsame]
        exact ha.uses ht huses hbefore
  case latest =>
    intro x exchange hexchange hunderWay
    obtain ⟨record, t, hrecord, ht, huses, hnow⟩ := ha.latest hexchange hunderWay
    obtain ⟨record', hrecord', hsame⟩ := hrecent.kept hrecord
    exact ⟨record', t, hrecord', ht, huses, hnow.trans hsame.symm⟩
  case opened => exact ha.opened

theorem Accounts.unused (ha : Accounts ts m exchanges) (hunused : ∀ key, ¬Uses t key)
    (hpast : t.before.now ≤ m.now) : Accounts (ts ++ [t]) m exchanges := by
  constructor
  case consistent => exact ha.consistent
  case answers => exact ha.answers
  case owners => exact ha.owners
  case past =>
    intro t' ht'
    rcases List.mem_append.mp ht' with hold | hnew
    · exact ha.past hold
    · rw [List.mem_singleton.mp hnew]
      exact hpast
  case uses =>
    intro t' key record ht' huses hrecord
    rcases List.mem_append.mp ht' with hold | hnew
    · exact ha.uses hold huses hrecord
    · rw [List.mem_singleton.mp hnew] at huses
      exact absurd huses (hunused key)
  case latest =>
    intro x exchange hexchange hunderWay
    obtain ⟨record, t', hrecord, ht', huses, hnow⟩ := ha.latest hexchange hunderWay
    exact ⟨record, t', hrecord, List.mem_append_left _ ht', huses, hnow⟩
  case opened =>
    intro x exchange hexchange hunderWay
    obtain ⟨t', ht', hforwards⟩ := ha.opened hexchange hunderWay
    exact ⟨t', List.mem_append_left _ ht', hforwards⟩

/-- A step that is a use of the key touches it, and no other. -/
theorem Accounts.used (ha : Accounts ts m exchanges) {key : String} (huses : Uses t key)
    (hnow : t.before.now = m.now) (honly : ∀ key', Uses t key' → key' = key) :
    Accounts (ts ++ [t]) (m.touch key) exchanges := by
  constructor
  case consistent => exact ha.consistent.step (e := .touch key) rfl
  case answers => exact ha.answers.step ha.consistent (e := .touch key) rfl
  case owners => exact ha.owners
  case past =>
    intro t' ht'
    rcases List.mem_append.mp ht' with hold | hnew
    · exact ha.past hold
    · rw [List.mem_singleton.mp hnew]
      exact Nat.le_of_eq hnow
  case uses =>
    intro t' key' record ht' huses' hrecord
    by_cases hsame : key' = key
    · subst hsame
      have hpast : t'.before.now ≤ m.now := by
        rcases List.mem_append.mp ht' with hold | hnew
        · exact ha.past hold
        · rw [List.mem_singleton.mp hnew]
          exact Nat.le_of_eq hnow
      rw [Manager.touch, Manager.find?_records_modify, if_pos rfl] at hrecord
      obtain ⟨old, _, rfl⟩ := Option.map_eq_some_iff.mp hrecord
      exact hpast
    · rw [Manager.find?_touch_of_ne hsame] at hrecord
      rcases List.mem_append.mp ht' with hold | hnew
      · exact ha.uses hold huses' hrecord
      · rw [List.mem_singleton.mp hnew] at huses'
        exact absurd (honly key' huses') hsame
  case latest =>
    intro x exchange hexchange hunderWay
    obtain ⟨record, t', hrecord, ht', huses', hnow'⟩ := ha.latest hexchange hunderWay
    by_cases hsame : exchange.key = key
    · rw [hsame] at hrecord ⊢
      exact ⟨record.touch m.now, t, Manager.find?_touch hrecord, List.mem_concat_self, huses, hnow⟩
    · exact ⟨record, t', (Manager.find?_touch_of_ne hsame).trans hrecord,
        List.mem_append_left _ ht', huses', hnow'⟩
  case opened =>
    intro x exchange hexchange hunderWay
    obtain ⟨t', ht', hforwards⟩ := ha.opened hexchange hunderWay
    exact ⟨t', List.mem_append_left _ ht', hforwards⟩

theorem Accounts.arrived (ha : Accounts ts m exchanges) {exchange : Exchange}
    (hidle : exchange.phase.isUnderWay = false)
    (hcaller : ∀ c, exchange.phase = .ensuring c →
      ∃ caller, m.callers.find? c = some caller ∧ caller.key = exchange.key) :
    Accounts ts m (exchanges ++ [exchange]) := by
  have hcases : ∀ {x : ExchangeId} {exchange' : Exchange},
      (exchanges ++ [exchange])[x]? = some exchange' →
      exchanges[x]? = some exchange' ∨ exchange' = exchange := by
    intro x exchange' hfound
    rw [List.getElem?_append] at hfound
    split at hfound
    · exact .inl hfound
    · exact .inr (List.mem_singleton.mp (List.mem_of_getElem? hfound))
  constructor
  case consistent => exact ha.consistent
  case answers => exact ha.answers
  case past => exact ha.past
  case uses => exact ha.uses
  case owners =>
    intro x exchange' c hfound hensuring
    rcases hcases hfound with hold | rfl
    · exact ha.owners hold hensuring
    · exact hcaller c hensuring
  case latest =>
    intro x exchange' hfound hunderWay
    rcases hcases hfound with hold | rfl
    · exact ha.latest hold hunderWay
    · rw [hidle] at hunderWay
      cases hunderWay
  case opened =>
    intro x exchange' hfound hunderWay
    rcases hcases hfound with hold | rfl
    · exact ha.opened hold hunderWay
    · rw [hidle] at hunderWay
      cases hunderWay

theorem Accounts.withPhase (ha : Accounts ts m exchanges) {x : ExchangeId} {exchange : Exchange}
    (hexchange : exchanges[x]? = some exchange) {phase : ExchangePhase}
    (hpast : ∀ c, phase ≠ .ensuring c)
    (hlatest : phase.isUnderWay → ∃ record t, m.records.find? exchange.key = some record ∧
      t ∈ ts ∧ Uses t exchange.key ∧ t.before.now = record.lastActivity)
    (hopened : phase.isUnderWay → ∃ t ∈ ts, Forwards t x exchange.key) :
    Accounts ts m (withPhase exchanges x phase) := by
  have hcases : ∀ {y : ExchangeId} {exchange' : Exchange},
      (Router.withPhase exchanges x phase)[y]? = some exchange' →
      exchanges[y]? = some exchange' ∨ y = x ∧ exchange' = { exchange with phase := phase } := by
    intro y exchange' hfound
    rw [getElem?_withPhase] at hfound
    split at hfound
    next hsame =>
      rw [hsame, hexchange, Option.map_some, Option.some.injEq] at hfound
      exact .inr ⟨hsame, hfound.symm⟩
    next => exact .inl hfound
  constructor
  case consistent => exact ha.consistent
  case answers => exact ha.answers
  case past => exact ha.past
  case uses => exact ha.uses
  case owners =>
    intro y exchange' c hfound hensuring
    rcases hcases hfound with hold | ⟨_, rfl⟩
    · exact ha.owners hold hensuring
    · exact absurd hensuring (hpast c)
  case latest =>
    intro y exchange' hfound hunderWay
    rcases hcases hfound with hold | ⟨_, rfl⟩
    · exact ha.latest hold hunderWay
    · exact hlatest hunderWay
  case opened =>
    intro y exchange' hfound hunderWay
    rcases hcases hfound with hold | ⟨rfl, rfl⟩
    · exact ha.opened hold hunderWay
    · exact hopened hunderWay

theorem conclude_ne_ensuring {exchange : Exchange} {request : Http.Request}
    (hforwarded : exchange.phase = .forwarded request) (reply : Http.Reply) (c : CallerId) :
    exchange.conclude reply ≠ .ensuring c := by
  unfold Exchange.conclude
  split
  · split
    · split <;> simp
    · simp
  · simp
  · simp [hforwarded]

/-- A step that uses no key and leaves all records in their place. -/
theorem Accounts.aside (ha : Accounts ts r.manager r.exchanges) {e : Event}
    (hquiet : r.manager.Quietly next.manager) (hunused : ∀ key, ¬Uses ⟨r, e, next⟩ key) :
    Accounts (ts ++ [⟨r, e, next⟩]) next.manager r.exchanges :=
  (ha.quietly hquiet).unused hunused (Manager.now_le_of_reaches hquiet)

theorem Accounts.turnedAway (ha : Accounts ts r.manager r.exchanges) {e : Event} {x : ExchangeId}
    {exchange : Exchange} {c : CallerId} {phase : ExchangePhase}
    (hother : ∀ key, e ≠ .upkeep (.manager (.touch key)))
    (hquiet : r.manager.Quietly next.manager) (hexchange : r.exchanges[x]? = some exchange)
    (hensuring : exchange.phase = .ensuring c)
    (hphase : (∃ cause, phase = .refused (.ofError exchange.key cause)) ∨ phase = .dropped)
    (hexchanges : next.exchanges = Router.withPhase r.exchanges x phase) :
    Accounts (ts ++ [⟨r, e, next⟩]) next.manager next.exchanges := by
  have hover : phase.isSent = false ∧ phase.isUnderWay = false ∧
      ∀ c', phase ≠ .ensuring c' := by
    rcases hphase with ⟨cause, rfl⟩ | rfl
    · unfold Refusal.ofError
      split <;> simp [ExchangePhase.isSent, ExchangePhase.isUnderWay]
    · simp [ExchangePhase.isSent, ExchangePhase.isUnderWay]
  obtain ⟨hsent, hunderWay, hpast⟩ := hover
  have haside : Accounts (ts ++ [⟨r, e, next⟩]) next.manager r.exchanges := by
    apply ha.aside hquiet
    intro key huses
    obtain ⟨_, hforwards | hcloses⟩ := huses.of_withPhase (hother key) hexchange hexchanges
    · simp [hsent] at hforwards
    · simp [hensuring] at hcloses
  rw [hexchanges]
  exact haside.withPhase hexchange hpast (by simp [hunderWay]) (by simp [hunderWay])

/-- The caller of a request has its answer, so the key has a record for the use to be
noted in. -/
theorem Accounts.forwarded (ha : Accounts ts r.manager r.exchanges) {e : Event} {m : Manager}
    {x : ExchangeId} {exchange : Exchange} {c : CallerId} {a : Answer} {phase : ExchangePhase}
    (hother : ∀ key, e ≠ .upkeep (.manager (.touch key))) (hquiet : r.manager.Quietly m)
    (hnow : m.now = r.now) (hexchange : r.exchanges[x]? = some exchange)
    (hensuring : exchange.phase = .ensuring c)
    (hanswer : (m.callers.find? c).bind Caller.answer? = some a)
    (hserved : ∀ cause, a ≠ .error cause) (hmanager : next.manager = m.touch exchange.key)
    (hsent : phase.isSent) (hexchanges : next.exchanges = Router.withPhase r.exchanges x phase) :
    Accounts (ts ++ [⟨r, e, next⟩]) next.manager next.exchanges := by
  have hself : next.exchanges[x]? = some { exchange with phase := phase } := by
    rw [hexchanges, getElem?_withPhase, if_pos rfl, hexchange, Option.map_some]
  have hforwards : Forwards ⟨r, e, next⟩ x exchange.key :=
    ⟨exchange, _, c, hexchange, hself, rfl, hensuring, hsent⟩
  have huses : Uses ⟨r, e, next⟩ exchange.key := .inl ⟨x, .inl hforwards⟩
  have hm := ha.quietly hquiet
  have hused : Accounts (ts ++ [⟨r, e, next⟩]) (m.touch exchange.key) r.exchanges := by
    apply hm.used huses hnow.symm
    intro key' huses'
    exact (huses'.of_withPhase (hother key') hexchange hexchanges).1.symm
  obtain ⟨record, hrecord⟩ : ∃ record, m.records.find? exchange.key = some record := by
    obtain ⟨caller, hcaller, hkey⟩ := hm.owners hexchange hensuring
    rw [hcaller, Option.bind_some] at hanswer
    have hanswered := Caller.answer?_eq_some_iff.mp hanswer
    exact hkey ▸ hm.answers c caller a hcaller hanswered hserved
  rw [hmanager, hexchanges]
  apply hused.withPhase hexchange
  case hpast =>
    rintro c' rfl
    cases hsent
  case hlatest =>
    intro _
    exact ⟨record.touch m.now, _, Manager.find?_touch hrecord, List.mem_concat_self, huses,
      hnow.symm⟩
  case hopened => exact fun _ => ⟨_, List.mem_concat_self, hforwards⟩

theorem Accounts.concluded (ha : Accounts ts r.manager r.exchanges) {e : Event} {x : ExchangeId}
    {exchange : Exchange} {request : Http.Request} {phase : ExchangePhase}
    (hother : ∀ key, e ≠ .upkeep (.manager (.touch key))) (hmanager : next.manager = r.manager)
    (hexchange : r.exchanges[x]? = some exchange) (hforwarded : exchange.phase = .forwarded request)
    (hphase : (∃ reply, phase = exchange.conclude reply) ∨ phase = .dropped)
    (hexchanges : next.exchanges = Router.withPhase r.exchanges x phase) :
    Accounts (ts ++ [⟨r, e, next⟩]) next.manager next.exchanges := by
  have hsame : Accounts (ts ++ [⟨r, e, next⟩]) r.manager r.exchanges := by
    apply ha.unused _ (Nat.le_refl _)
    intro key huses
    obtain ⟨_, hforwards | hcloses⟩ := huses.of_withPhase (hother key) hexchange hexchanges
    · simp [hforwarded] at hforwards
    · simp [hforwarded] at hcloses
  have hbefore : exchange.phase.isUnderWay := by rw [hforwarded]; rfl
  rw [hmanager, hexchanges]
  apply hsame.withPhase hexchange
  case hpast =>
    intro c
    rcases hphase with ⟨reply, rfl⟩ | rfl
    · exact conclude_ne_ensuring hforwarded reply c
    · simp
  case hlatest => exact fun _ => hsame.latest hexchange hbefore
  case hopened => exact fun _ => hsame.opened hexchange hbefore

theorem Accounts.closed (ha : Accounts ts r.manager r.exchanges) {x : ExchangeId}
    {exchange : Exchange} {response : Http.Response} (hexchange : r.exchanges[x]? = some exchange)
    (htunnelling : exchange.phase = .tunnelling response)
    (hmanager : next.manager = r.manager.touch exchange.key)
    (hexchanges : next.exchanges = Router.withPhase r.exchanges x (.closed response)) :
    Accounts (ts ++ [⟨r, .close x, next⟩]) next.manager next.exchanges := by
  have hself : next.exchanges[x]? = some { exchange with phase := .closed response } := by
    rw [hexchanges, getElem?_withPhase, if_pos rfl, hexchange, Option.map_some]
  have hcloses : Closes ⟨r, .close x, next⟩ x exchange.key :=
    ⟨exchange, _, response, hexchange, hself, rfl, htunnelling, rfl⟩
  have hused : Accounts (ts ++ [⟨r, .close x, next⟩]) (r.manager.touch exchange.key)
      r.exchanges := by
    apply ha.used (.inl ⟨x, .inr hcloses⟩) rfl
    intro key' huses'
    exact (huses'.of_withPhase (by simp) hexchange hexchanges).1.symm
  rw [hmanager, hexchanges]
  exact hused.withPhase hexchange (by simp) (by simp [ExchangePhase.isUnderWay])
    (by simp [ExchangePhase.isUnderWay])

theorem Accounts.step (ha : Accounts ts r.manager r.exchanges) {e : Event}
    (hstep : r.step e = some next) :
    Accounts (ts ++ [⟨r, e, next⟩]) next.manager next.exchanges := by
  cases turn_of_step hstep with
  | aside hother hquiet hexchanges =>
      rw [hexchanges]
      apply ha.aside hquiet
      intro key
      apply not_uses_of_kept (hother key)
      intro x old hold
      exact hexchanges ▸ hold
  | touched key hmanager hexchanges =>
      rw [hmanager, hexchanges]
      apply ha.used (.inr rfl) rfl
      intro key' huses
      apply Decidable.byContradiction
      intro hne
      refine not_uses_of_kept ?_ ?_ huses
      · simpa using Ne.symm hne
      · intro x old hold
        exact hexchanges ▸ hold
  | arrived hother hquiet hexchanges hidle hcaller =>
      rw [hexchanges]
      refine Accounts.arrived ?_ hidle hcaller
      apply ha.aside hquiet
      intro key
      apply not_uses_of_kept (hother key)
      intro x old hold
      have hx : x < r.exchanges.length := (List.getElem?_eq_some_iff.mp hold).1
      rw [hexchanges, List.getElem?_append_left hx]
      exact hold
  | turnedAway hother hquiet hexchange hensuring hphase hexchanges =>
      exact ha.turnedAway hother hquiet hexchange hensuring hphase hexchanges
  | forwarded hother hquiet hnow hexchange hensuring hanswer hserved hmanager hsent hexchanges =>
      exact ha.forwarded hother hquiet hnow hexchange hensuring hanswer hserved hmanager hsent
        hexchanges
  | concluded hother hmanager hexchange hforwarded hphase hexchanges =>
      exact ha.concluded hother hmanager hexchange hforwarded hphase hexchanges
  | closed hexchange htunnelling hmanager hexchanges =>
      exact ha.closed hexchange htunnelling hmanager hexchanges

theorem accounts_of_run {deadline : Duration} {port : UInt16} {wakeTimeout : Duration}
    {es : List Event} (hrun : Run.after? step (.start deadline port wakeTimeout) es = some r) :
    Accounts (Run.trail step (.start deadline port wakeTimeout) es) r.manager r.exchanges := by
  have hfirst : Accounts [] (start deadline port wakeTimeout).manager
      (start deadline port wakeTimeout).exchanges := accounts_start deadline
  apply Run.trail_induction (P := fun ts r => Accounts ts r.manager r.exchanges) _ [] hfirst hrun
  intro ts r e next ha hstep
  exact ha.step hstep

/-! ## Tunnels -/

/-- No key that has an open tunnel is idle, whatever the timeout. -/
def SessionsBusy (r : Router) : Prop :=
  ∀ (x : ExchangeId) (exchange : Exchange) (response : Http.Response) (timeout : Duration),
    r.exchanges[x]? = some exchange → exchange.phase = .tunnelling response →
    exchange.key ∉ r.manager.idleKeys timeout

/-- In every state that a run leads to, a key that has an open tunnel is idle just if it runs
and all its uses lie longer ago than the timeout: the requests of it that went on, the one that
opened the tunnel among them, its tunnels that ended and the touches.  A tick of the watcher
lists the key only then. -/
theorem tunnel_idle_iff {deadline : Duration} {port : UInt16} {wakeTimeout : Duration}
    {es : List Event} (hrun : Run.after? step (.start deadline port wakeTimeout) es = some r)
    {x : ExchangeId} {exchange : Exchange} {response : Http.Response}
    (hexchange : r.exchanges[x]? = some exchange)
    (htunnelling : exchange.phase = .tunnelling response) :
    (∃ t ∈ Run.trail step (.start deadline port wakeTimeout) es, Forwards t x exchange.key) ∧
    (∀ timeout, exchange.key ∈ r.manager.idleKeys timeout ↔
      r.manager.state? exchange.key = some .running ∧
        ∀ t ∈ Run.trail step (.start deadline port wakeTimeout) es, Uses t exchange.key →
          timeout.nanos < r.now - t.before.now) ∧
    (∀ (i : TickId) (tick : Tick) (keys : List String) (next : Router),
      r.upkeep.ticks[i]? = some tick → r.step (.upkeep (.begin i keys)) = some next →
      exchange.key ∈ keys →
      ∀ t ∈ Run.trail step (.start deadline port wakeTimeout) es, Uses t exchange.key →
        tick.idleTimeout.nanos < r.now - t.before.now) := by
  have ha := accounts_of_run hrun
  have hunderWay : exchange.phase.isUnderWay := by rw [htunnelling]; rfl
  have hidle : ∀ timeout, exchange.key ∈ r.manager.idleKeys timeout ↔
      r.manager.state? exchange.key = some .running ∧
        ∀ t ∈ Run.trail step (.start deadline port wakeTimeout) es, Uses t exchange.key →
          timeout.nanos < r.now - t.before.now := by
    intro timeout
    rw [Manager.mem_idleKeys, Manager.state?_eq_some_iff]
    constructor
    · rintro ⟨record, hrecord, hrunning, hlong⟩
      refine ⟨⟨record, hrecord, hrunning⟩, ?_⟩
      intro t ht huses
      have hle := ha.uses ht huses hrecord
      exact Nat.lt_of_lt_of_le hlong (Nat.sub_le_sub_left hle r.now)
    · rintro ⟨⟨record, hrecord, hrunning⟩, hlong⟩
      obtain ⟨record', t, hrecord', ht, huses, hnow⟩ := ha.latest hexchange hunderWay
      rw [hrecord, Option.some.injEq] at hrecord'
      subst hrecord'
      exact ⟨record, hrecord, hrunning, hnow ▸ hlong t ht huses⟩
  refine ⟨ha.opened hexchange hunderWay, hidle, ?_⟩
  intro i tick keys next htick hstep hlisted
  obtain ⟨u, hu, _⟩ := Option.map_eq_some_iff.mp hstep
  cases Upkeep.move_of_step hu with
  | begin htick' _ hkeys =>
      rw [htick, Option.some.injEq] at htick'
      subst htick'
      have hmem : exchange.key ∈ r.manager.idleKeys tick.idleTimeout := hkeys.mem_iff.mp hlisted
      exact ((hidle tick.idleTimeout).mp hmem).2

/-- A client asks for a tunnel. -/
def upgradeRequest : Http.Request where
  method := "GET"
  uri := ⟨none, none, some "/ws"⟩
  version := .v11
  headers := [.ofText "host" "alpha", .ofText "connection" "upgrade", .ofText "upgrade" "echo"]
  body := .empty

/-- The tunnel is open for more than a minute when the watcher ticks. -/
def longSession : List Event :=
  [.request 1 upgradeRequest none true,
    .upkeep (.manager (.described 1 (.ok [⟨"vm-1", "10.0.0.5", "Running", ["alpha"]⟩]))),
    .upkeep (.manager (.engage 1)), .replied 0 (.response ⟨101, .v11, [], .empty⟩),
    .upkeep (.install ⟨.ofSeconds 10, .ofSeconds 60⟩),
    .upkeep (.manager (.elapse (.ofSeconds 61))), .upkeep .tick]

theorem tunnel_idle_iff_longSession :
    ∃ r exchange response,
      Run.after? step (.start Manager.defaultResumeDeadline 80 (.ofSeconds 60)) longSession =
        some r ∧
      r.exchanges[0]? = some exchange ∧ exchange.phase = .tunnelling response ∧
      exchange.key ∉ r.manager.idleKeys (.ofSeconds 61) := by
  obtain ⟨r, exchange, response, hrun, hexchange, htunnelling, hnow⟩ :
      ∃ r exchange response,
        Run.after? step (.start Manager.defaultResumeDeadline 80 (.ofSeconds 60)) longSession =
          some r ∧
        r.exchanges[0]? = some exchange ∧ exchange.phase = .tunnelling response ∧
        r.now = (Duration.ofSeconds 61).nanos :=
    ⟨_, _, _, rfl, rfl, rfl, rfl⟩
  obtain ⟨⟨t, ht, hforwards⟩, hidle, _⟩ := tunnel_idle_iff hrun hexchange htunnelling
  refine ⟨r, exchange, response, hrun, hexchange, htunnelling, fun hmem => ?_⟩
  have hlong := ((hidle _).mp hmem).2 t ht (.inl ⟨0, .inl hforwards⟩)
  rw [hnow] at hlong
  exact absurd hlong (Nat.not_lt.mpr (Nat.sub_le _ _))

/-- The key is idle while its tunnel is open, and the watcher pauses the machine at the other
end of the tunnel. -/
theorem not_sessionsBusy_longSession :
    ∃ r last,
      Run.after? step (.start Manager.defaultResumeDeadline 80 (.ofSeconds 60)) longSession =
        some r ∧
      ¬r.SessionsBusy ∧
      Run.after? step r [.upkeep (.begin 0 ["alpha"]), .upkeep (.paused 0 .done)] = some last ∧
      last.exchanges = r.exchanges ∧ last.manager.state? "alpha" = some .paused := by
  refine ⟨_, _, rfl, fun hbusy => ?_, rfl, rfl, rfl⟩
  exact hbusy 0 _ _ (.ofSeconds 60) rfl rfl (List.mem_singleton.mpr rfl)

end Router

end WakeRouter
