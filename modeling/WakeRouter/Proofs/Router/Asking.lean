import WakeRouter.Proofs.Proxy.Ask
import WakeRouter.Proofs.Router.Harmless

/-!
# Asking disturbs nothing

Whatever becomes of a question, the steps taken for it wake and pause nothing and leave all
records as they are.  The domain that it is about may get its first record, and only by the
answer that the question waits for: a question that was refused, or whose lookup failed or took
too long, leaves nothing behind.  `Router.Asking` is the law, with one field for each of these.
-/

namespace WakeRouter.Router

open Run (Transition trail)

variable {r next last : Router} {e : Event} {a : AskId} {c : CallerId} {method domain : String}
  {since : Instant} {t : Transition Router Event} {ts : List (Transition Router Event)}

/-! ## Where a question is -/

/-- The question about the domain looks, or is done with. -/
def Placed (r : Router) (a : AskId) (method : String) (c : CallerId) (since : Instant)
    (domain : String) : Prop :=
  r.Looks a method c since domain ∨ ∃ phase, r.Over a ⟨method, phase⟩ c domain

theorem Placed.step (hplaced : r.Placed a method c since domain) (hr : r.Known)
    (hstep : r.step e = some next) : next.Placed a method c since domain := by
  rcases hplaced with hlooks | ⟨phase, hover⟩
  · cases lookChange_of_step hr hlooks hstep with
    | waits _ hlooks => exact .inl hlooks
    | told _ hover | failed _ _ hover => exact .inr ⟨_, hover⟩
  · exact .inr ⟨phase, (hover.step hstep).1⟩

theorem Placed.caller (hplaced : r.Placed a method c since domain) :
    ∃ caller, r.manager.callers.find? c = some caller ∧ caller.key = domain ∧
      caller.purpose = .lookup := by
  rcases hplaced with hlooks | ⟨phase, hover⟩
  · obtain ⟨caller, hcaller, hkey, hpurpose, -⟩ := hlooks.caller
    exact ⟨caller, hcaller, hkey, hpurpose⟩
  · obtain ⟨caller, hcaller, hkey, hpurpose, -⟩ := hover.caller
    exact ⟨caller, hcaller, hkey, hpurpose⟩

theorem Placed.lt (hplaced : r.Placed a method c since domain) : a < r.asks.length := by
  rcases hplaced with hlooks | ⟨phase, hover⟩
  · exact (List.getElem?_eq_some_iff.mp hlooks.ask_eq).1
  · exact (List.getElem?_eq_some_iff.mp hover.ask_eq).1

/-- Nobody gives up early. -/
theorem Placed.late (hplaced : r.Placed a method c since domain)
    (hstep : r.step (.expire a) = some next) : since + Ask.limit.nanos ≤ r.now := by
  rcases hplaced with hlooks | ⟨phase, hover⟩
  · cases move_of_step hstep with
    | expire hask hphase hlate =>
        obtain rfl := Option.some.inj (hlooks.ask_eq.symm.trans hask)
        cases hphase
        exact hlate
  · exact absurd (.inl rfl) (hover.step hstep).2.1

/-! ## How a question came to where it is -/

/-- How a question about the domain, which came at the instant, came to its phase. -/
inductive AskStory (ts : List (Transition Router Event)) (r : Router) (a : AskId)
    (method : String) (c : CallerId) (since : Instant) (domain : String) : AskPhase → Prop
  | looks (hlooks : r.Looks a method c since domain)
      (hquiet : ∀ t ∈ ts, Concerns t.event a c →
        t.after.manager.records = t.before.manager.records)
      (hunheard : ∀ t ∈ ts, ∀ s, ¬Shows t c s) :
      AskStory ts r a method c since domain (.looking c since)
  | failed {phase : AskPhase}
      (hphase : phase = .answered .lookupFailed ∨
        phase = .dropped ∧ ∃ t ∈ ts, t.event = .dropAsk a)
      (hover : r.Over a ⟨method, phase⟩ c domain)
      (hquiet : ∀ t ∈ ts, Concerns t.event a c →
        t.after.manager.records = t.before.manager.records)
      (hunheard : ∀ t ∈ ts, ∀ s, ¬Shows t c s) :
      AskStory ts r a method c since domain phase
  | told {t : Transition Router Event} {s : Snapshot}
      (hover : r.Over a ⟨method, .answered (.ofAnswer (.record s))⟩ c domain) (ht : t ∈ ts)
      (hshows : Shows t c s)
      (honly : ∀ t' ∈ ts, ∀ s', Shows t' c s' → s' = s ∧ Finds t' domain s') :
      AskStory ts r a method c since domain (.answered (.ofAnswer (.record s)))

variable {phase : AskPhase}

theorem Looks.not_shows {before : Router} (hlooks : r.Looks a method c since domain)
    (s : Snapshot) : ¬Shows ⟨before, e, r⟩ c s := by
  rintro ⟨-, hanswered⟩
  obtain ⟨caller, hcaller, -, -, hpending⟩ := hlooks.caller
  rw [hcaller, Option.bind_some, Caller.answer?_eq_some_iff] at hanswered
  simp [Caller.isPending, hanswered] at hpending

theorem AskStory.ask_eq (hstory : AskStory ts r a method c since domain phase) :
    r.asks[a]? = some ⟨method, phase⟩ := by
  cases hstory with
  | looks hlooks => exact hlooks.ask_eq
  | failed _ hover | told hover => exact hover.ask_eq

theorem AskStory.placed (hstory : AskStory ts r a method c since domain phase) :
    r.Placed a method c since domain := by
  cases hstory with
  | looks hlooks => exact .inl hlooks
  | failed _ hover | told hover => exact .inr ⟨_, hover⟩

/-- Only the answer that the question waits for makes a record. -/
theorem AskStory.step (hstory : AskStory ts r a method c since domain phase) (hr : r.Known)
    (hstep : r.step e = some next) :
    ∃ phase', AskStory (ts ++ [⟨r, e, next⟩]) next a method c since domain phase' := by
  cases hstory with
  | looks hlooks hquiet hunheard =>
      cases lookChange_of_step hr hlooks hstep with
      | waits haside hwaits =>
          exact ⟨_, .looks hwaits (forall_mem_concat hquiet fun hconcerns =>
            absurd hconcerns haside) (forall_mem_concat hunheard hwaits.not_shows)⟩
      | told _ hover hshows hfinds =>
          refine ⟨_, .told hover List.mem_concat_self hshows (forall_mem_concat ?_ ?_)⟩
          · exact fun t ht s hother => absurd hother (hunheard t ht s)
          · intro s hother
            have hsame := hshows.answered.symm.trans hother.answered
            cases hsame
            exact ⟨rfl, hfinds⟩
      | failed _ hphase hover hrecords hnothing =>
          refine ⟨_, .failed (hphase.imp_right ?_) hover (forall_mem_concat hquiet fun _ =>
            hrecords) (forall_mem_concat hunheard hnothing)⟩
          exact fun ⟨hdropped, hevent⟩ => ⟨hdropped, _, List.mem_concat_self, hevent⟩
  | failed hphase hover hquiet hunheard =>
      obtain ⟨hover, haside, hnothing⟩ := hover.step hstep
      refine ⟨_, .failed (hphase.imp_right ?_) hover (forall_mem_concat hquiet fun hconcerns =>
        absurd hconcerns haside) (forall_mem_concat hunheard hnothing)⟩
      exact fun ⟨hdropped, t, ht, hevent⟩ => ⟨hdropped, t, List.mem_append_left _ ht, hevent⟩
  | told hover ht hshows honly =>
      obtain ⟨hover, -, hnothing⟩ := hover.step hstep
      refine ⟨_, .told hover (List.mem_append_left _ ht) hshows (forall_mem_concat honly ?_)⟩
      exact fun s hother => absurd hother (hnothing s)

theorem askStory_of_ask (hr : r.Known) (hfresh : r.manager.callers.find? c = none)
    {uri : Http.Uri} (hquestion : Ask.question? method uri = .ok domain) :
    ∃ phase, AskStory [⟨r, .ask c method uri, r.ask c method uri⟩] (r.ask c method uri)
      r.asks.length method c r.now domain phase := by
  cases hrecord : r.manager.records.find? domain with
  | none =>
      obtain ⟨-, hlooks⟩ := ask_of_unknown hr hfresh hquestion hrecord
      exact ⟨_, .looks hlooks (List.forall_mem_singleton.mpr (by simp [Concerns]))
        (List.forall_mem_singleton.mpr hlooks.not_shows)⟩
  | some record =>
      obtain ⟨hupkeep, hover, hshows⟩ := ask_of_known hr hfresh hquestion hrecord
      refine ⟨_, .told hover (List.mem_singleton.mpr rfl) hshows
        (List.forall_mem_singleton.mpr ?_)⟩
      intro s hother
      have hsame := hshows.answered.symm.trans hother.answered
      cases hsame
      have hmanager := congrArg Upkeep.manager hupkeep
      refine ⟨rfl, record, ?_, ?_⟩
      · show (r.ask c method uri).manager.records.find? domain = some record
        rw [manager, hmanager]
        exact hrecord
      · show _ = record.snapshot (r.ask c method uri).manager.now domain
        rw [manager, hmanager]
        rfl

/-! ## What the story says about the answer -/

theorem AskStory.told_iff (hstory : AskStory ts r a method c since domain phase)
    (missing : Bool) :
    (⟨method, phase⟩ : Ask).status? = some (if missing then 404 else 200) ↔
      ∃ t ∈ ts, ∃ s, Shows t c s ∧ (s.state = .notFound ↔ missing) := by
  cases hstory with
  | looks _ _ hunheard =>
      refine iff_of_false (by simp [Ask.status?_looking]) ?_
      rintro ⟨t, ht, s, hshows, -⟩
      exact hunheard t ht s hshows
  | failed hphase _ _ hunheard =>
      refine iff_of_false ?_ ?_
      · rcases hphase with rfl | ⟨rfl, -⟩
        · cases missing <;> simp [Ask.status?_lookupFailed]
        · simp [Ask.status?_dropped]
      · rintro ⟨t, ht, s, hshows, -⟩
        exact hunheard t ht s hshows
  | @told t s _ ht hshows honly =>
      have hcode : some (if s.state = .notFound then 404 else 200) =
          some (if missing then 404 else 200) ↔ (s.state = .notFound ↔ missing) := by
        by_cases hnone : s.state = .notFound <;> cases missing <;> simp [hnone]
      rw [Ask.status?_ofRecord, hcode]
      constructor
      · exact fun hsame => ⟨t, ht, s, hshows, hsame⟩
      · rintro ⟨t', ht', s', hshows', hsame⟩
        rwa [(honly t' ht' s' hshows').1] at hsame

theorem AskStory.failed_iff (hstory : AskStory ts r a method c since domain phase) :
    (⟨method, phase⟩ : Ask).status? = some 500 ↔
      (⟨method, phase⟩ : Ask).status? ≠ none ∧ ∀ t ∈ ts, ∀ s, ¬Shows t c s := by
  cases hstory with
  | looks => simp [Ask.status?_looking]
  | failed hphase _ _ hunheard =>
      rcases hphase with rfl | ⟨rfl, -⟩
      · simpa [Ask.status?_lookupFailed] using hunheard
      · simp [Ask.status?_dropped]
  | @told t s _ ht hshows =>
      rw [Ask.status?_ofRecord]
      refine iff_of_false ?_ fun hnothing => hnothing.2 t ht s hshows
      split <;> simp

theorem AskStory.status_ne (hstory : AskStory ts r a method c since domain phase) :
    (⟨method, phase⟩ : Ask).status? ≠ some 400 := by
  cases hstory with
  | looks => simp [Ask.status?_looking]
  | failed hphase =>
      rcases hphase with rfl | ⟨rfl, -⟩
      · simp [Ask.status?_lookupFailed]
      · simp [Ask.status?_dropped]
  | told =>
      rw [Ask.status?_ofRecord]
      split <;> simp

theorem AskStory.finds (hstory : AskStory ts r a method c since domain phase) (ht : t ∈ ts)
    {s : Snapshot} (hshows : Shows t c s) : Finds t domain s := by
  cases hstory with
  | looks _ _ hunheard | failed _ _ _ hunheard => exact absurd hshows (hunheard t ht s)
  | told _ _ _ honly => exact (honly t ht s hshows).2

theorem AskStory.quiet (hstory : AskStory ts r a method c since domain phase)
    (hstatus : (⟨method, phase⟩ : Ask).status? = some 500) (ht : t ∈ ts)
    (hconcerns : Concerns t.event a c) :
    t.after.manager.records = t.before.manager.records := by
  cases hstory with
  | looks _ hquiet | failed _ _ hquiet => exact hquiet t ht hconcerns
  | told =>
      rw [Ask.status?_ofRecord] at hstatus
      split at hstatus <;> cases hstatus

/-- Whatever the lookup comes to, the question with that caller is answered. -/
structure Awaits (r : Router) (a : AskId) (c : CallerId) (since : Instant) : Prop where
  described : ∀ nodes, ∃ next ask,
    r.step (.upkeep (.manager (.described c (.ok nodes)))) = some next ∧
      next.asks[a]? = some ask ∧ ask.status? ∈ [some 200, some 404]
  undescribed : ∀ cause, ∃ next ask,
    r.step (.upkeep (.manager (.described c (.error cause)))) = some next ∧
      next.asks[a]? = some ask ∧ ask.status? = some 500
  expired : since + Ask.limit.nanos ≤ r.now → ∃ next ask, r.step (.expire a) = some next ∧
    next.asks[a]? = some ask ∧ ask.status? = some 500

theorem Looks.awaits (hlooks : r.Looks a method c since domain) (hr : r.Known) :
    r.Awaits a c since := by
  obtain ⟨caller, hcaller, -, hpurpose, hpending⟩ := hlooks.caller
  have hdescribing := Manager.describing_of_lookup hr.reachable hcaller hpurpose hpending
  have hstep : ∀ answer, ∃ next,
      r.step (.upkeep (.manager (.described c answer))) = some next := by
    intro answer
    have hheard : r.manager.step (.described c answer) =
        some (r.manager.describe c caller answer) := by
      simp [Manager.step, hcaller, hdescribing]
    exact ⟨(r.withManager (r.manager.describe c caller answer)).attend c,
      by simp [Router.step, withdrawn?, subject?, hheard]⟩
  constructor
  case described =>
    intro nodes
    obtain ⟨next, hnext⟩ := hstep (.ok nodes)
    cases lookChange_of_step hr hlooks hnext with
    | waits haside => exact absurd (.inr (.inr ⟨_, rfl, rfl⟩)) haside
    | told _ hover =>
        refine ⟨next, _, hnext, hover.ask_eq, ?_⟩
        rw [Ask.status?_ofRecord]
        split <;> simp
    | failed hother => exact absurd rfl (hother nodes)
  case undescribed =>
    intro cause
    obtain ⟨next, hnext⟩ := hstep (.error cause)
    cases lookChange_of_step hr hlooks hnext with
    | waits haside => exact absurd (.inr (.inr ⟨_, rfl, rfl⟩)) haside
    | told hother => simp at hother
    | failed _ hphase hover =>
        rcases hphase with rfl | ⟨-, hother⟩
        · exact ⟨next, _, hnext, hover.ask_eq, Ask.status?_lookupFailed method⟩
        · cases hother
  case expired =>
    intro hlate
    have hnext : r.step (.expire a) = some ((r.giveUp c).setAsk a (.answered .lookupFailed)) := by
      simp only [Router.step, bind, Option.bind_eq_some_iff]
      refine ⟨_, hlooks.ask_eq, ?_⟩
      simp only [Option.ite_none_right_eq_some]
      exact ⟨hlate, trivial⟩
    exact ⟨_, _, hnext, getElem?_setAsk (r.giveUp c) hlooks.ask_eq, Ask.status?_lookupFailed method⟩

theorem AskStory.unanswered (hstory : AskStory ts r a method c since domain phase) (hr : r.Known)
    (hstatus : (⟨method, phase⟩ : Ask).status? = none) :
    (phase = .dropped ∧ ∃ t ∈ ts, t.event = .dropAsk a) ∨ r.Awaits a c since := by
  cases hstory with
  | looks hlooks => exact .inr (hlooks.awaits hr)
  | failed hphase =>
      refine .inl (hphase.resolve_left ?_)
      rintro rfl
      simp [Ask.status?_lookupFailed] at hstatus
  | told => cases (Ask.status?_ofRecord _ _).symm.trans hstatus

/-! ## The law -/

/-- The question came with a caller of that name. -/
def Asker (ts : List (Transition Router Event)) (a : AskId) (c : CallerId) : Prop :=
  ∃ t ∈ ts, ∃ method uri, t.event = .ask c method uri ∧ a = t.before.asks.length ∧
    t.after.manager.callers.find? c ≠ none

/-- The step is taken for the question: it comes, the manager hears of its caller, it takes too
long, or its client goes away. -/
inductive Handles (ts : List (Transition Router Event)) (t : Transition Router Event) (a : AskId) :
    Prop
  | comes {c : CallerId} {method : String} {uri : Http.Uri} (hevent : t.event = .ask c method uri)
      (ha : a = t.before.asks.length)
  | hears {c : CallerId} {heard : Manager.Event} (hasker : Asker ts a c)
      (hevent : t.event = .upkeep (.manager heard)) (hcaller : heard.caller? = some c)
  | expires (hevent : t.event = .expire a)
  | drops (hevent : t.event = .dropAsk a)

/-- In the step the lookup of the question returns the record. -/
def Gets (ts : List (Transition Router Event)) (t : Transition Router Event) (a : AskId)
    (s : Snapshot) : Prop :=
  ∃ c, Asker ts a c ∧ Shows t c s

/-- What becomes of a question that has come with that `domain` parameter, and of everything
else because of it; `ts` are the steps from the one in which it comes. -/
structure Asking (ts : List (Transition Router Event)) (first last : Router) (a : AskId)
    (domain? : Option String) (ask : Ask) : Prop where
  harmless : ∀ t ∈ ts, Handles ts t a → Harmless t domain?
  once : ts.Pairwise fun s t => Handles ts s a → Handles ts t a →
    ∀ key key', Adds s key → ¬Adds t key'
  missing : ask.status? = some 400 ↔ domain? = none ∨ domain? = some ""
  notFound : ask.status? = some 404 ↔ ∃ t ∈ ts, ∃ s, Gets ts t a s ∧ s.state = .notFound
  approved : ask.status? = some 200 ↔ ∃ t ∈ ts, ∃ s, Gets ts t a s ∧ s.state ≠ .notFound
  failed : ask.status? = some 500 ↔
    ask.status? ≠ none ∧ (∃ domain, domain? = some domain ∧ domain ≠ "") ∧
      ∀ t ∈ ts, ∀ s, ¬Gets ts t a s
  /-- The record that is returned is that of the domain, as it is then. -/
  finds : ∀ t ∈ ts, ∀ s, Gets ts t a s → ∃ domain, domain? = some domain ∧ Finds t domain s
  /-- Only a question that was answered by its record can have made the record. -/
  untouched : ask.status? ∈ [some 400, some 500] → ∀ t ∈ ts, Handles ts t a →
    t.after.manager.records = t.before.manager.records
  /-- So if nobody else has made it meanwhile, whoever comes next has the domain described. -/
  afresh : ask.status? ∈ [some 400, some 500] → ∀ domain,
    first.manager.records.find? domain = none →
    (∀ t ∈ ts, Adds t domain → Handles ts t a) → last.Unknown domain
  /-- A lookup is given up after its limit, and not before. -/
  late : ∀ t ∈ ts, t.event = .expire a → first.now + Ask.limit.nanos ≤ t.before.now
  /-- Without an answer the client has gone away, or every end of the lookup will be one. -/
  unanswered : ask.status? = none →
    (ask.phase = .dropped ∧ ∃ t ∈ ts, t.event = .dropAsk a) ∨
      ∃ c, Asker ts a c ∧ last.Awaits a c first.now

variable {later : List Event} {uri : Http.Uri} {domain? : Option String}

theorem once_of_harmless (hr : r.Known) (hrun : Run.after? Router.step r later = some last)
    (a : AskId) (domain? : Option String)
    (hharmless : ∀ t ∈ trail Router.step r later, Handles (trail Router.step r later) t a →
      Harmless t domain?) :
    (trail Router.step r later).Pairwise fun s t =>
      Handles (trail Router.step r later) s a → Handles (trail Router.step r later) t a →
        ∀ key key', Adds s key → ¬Adds t key' := by
  refine List.Pairwise.imp_of_mem ?_ (adds_once hr hrun)
  intro s t hs ht honce hhandles hhandles' key key' hadds hadds'
  have hsame : some key = some key' :=
    ((hharmless s hs hhandles).added key hadds).symm.trans
      ((hharmless t ht hhandles').added key' hadds')
  obtain rfl := Option.some.inj hsame
  exact honce key hadds hadds'

theorem afresh_of_untouched (hrun : Run.after? Router.step r later = some last) (a : AskId)
    (domain : String)
    (huntouched : ∀ t ∈ trail Router.step r later, Handles (trail Router.step r later) t a →
      t.after.manager.records = t.before.manager.records)
    (hnone : r.manager.records.find? domain = none)
    (halone : ∀ t ∈ trail Router.step r later, Adds t domain →
      Handles (trail Router.step r later) t a) : last.Unknown domain := by
  refine unknown_of_none (unknown_of_run hrun hnone fun t ht hadds => ?_)
  exact not_adds_of_records (huntouched t ht (halone t ht hadds)) domain hadds

/-- What comes with the first step of the run. -/
theorem asked_of_run (hlater : Run.after? Router.step r (.ask c method uri :: later) = some last) :
    r.manager.callers.find? c = none ∧
      Run.after? Router.step (r.ask c method uri) later = some last ∧
      trail Router.step r (.ask c method uri :: later) =
        ⟨r, .ask c method uri, r.ask c method uri⟩ ::
          trail Router.step (r.ask c method uri) later := by
  obtain ⟨asked, hstep, hrest⟩ := Option.bind_eq_some_iff.mp hlater
  have htrail := Run.trail_cons hstep later
  cases move_of_step hstep with
  | ask hfresh => exact ⟨hfresh, hrest, htrail⟩

/-! ## Steps after the first one -/

section Later

variable {asked : Router} {rest : List (Transition Router Event)} {c' : CallerId}
  (hts : ts = ⟨r, .ask c method uri, asked⟩ :: rest)
  (hrest : ∀ t ∈ rest, r.asks.length < t.before.asks.length)

include hts hrest

/-- The question comes in the first step only. -/
theorem eq_of_asker (hasker : Asker ts r.asks.length c') :
    c' = c ∧ asked.manager.callers.find? c ≠ none := by
  obtain ⟨t, ht, method', uri', hevent, hlength, hknown⟩ := hasker
  rw [hts] at ht
  rcases List.mem_cons.mp ht with rfl | ht
  · cases hevent
    exact ⟨rfl, hknown⟩
  · exact absurd hlength (Nat.ne_of_lt (hrest t ht))

theorem concerns_of_handles (ht : t ∈ rest) (hhandles : Handles ts t r.asks.length) :
    Concerns t.event r.asks.length c ∧ (asked.manager.callers.find? c ≠ none ∨
      t.event = .expire r.asks.length ∨ t.event = .dropAsk r.asks.length) := by
  cases hhandles with
  | comes _ hlength => exact absurd hlength (Nat.ne_of_lt (hrest t ht))
  | hears hasker hevent hcaller =>
      obtain ⟨rfl, hknown⟩ := eq_of_asker hts hrest hasker
      exact ⟨.inr (.inr ⟨_, hevent, hcaller⟩), .inl hknown⟩
  | expires hevent => exact ⟨.inl hevent, .inr (.inl hevent)⟩
  | drops hevent => exact ⟨.inr (.inl hevent), .inr (.inr hevent)⟩

end Later

/-! ## Questions without a domain -/

/-- A question that was refused stays so. -/
theorem refused_of_run {verdict : AskVerdict}
    (hquestion : Ask.question? method uri = .error verdict)
    (hrun : Run.after? Router.step (r.ask c method uri) later = some last) :
    last.asks[r.asks.length]? = some ⟨method, .answered verdict⟩ ∧
      ∀ t ∈ trail Router.step (r.ask c method uri) later,
        t.before.asks[r.asks.length]? = some ⟨method, .answered verdict⟩ ∧
          t.before.step t.event = some t.after := by
  have hfirst : (r.ask c method uri).asks[r.asks.length]? = some ⟨method, .answered verdict⟩ := by
    rw [ask_of_error hquestion]
    exact List.getElem?_concat_length
  have hstays : ∀ {s next : Router} {e : Event},
      s.asks[r.asks.length]? = some ⟨method, .answered verdict⟩ → s.step e = some next →
      next.asks[r.asks.length]? = some ⟨method, .answered verdict⟩ :=
    fun hask hstep => ask_of_step hstep hask (by simp)
  constructor
  · exact Run.trail_induction (P := fun _ s => s.asks[r.asks.length]? =
      some ⟨method, .answered verdict⟩) hstays [] hfirst hrun
  · exact fun t ht => Run.before_of_mem_trail (P := fun s => s.asks[r.asks.length]? =
      some ⟨method, .answered verdict⟩) hstays hfirst ht

section Refused

variable {verdict : AskVerdict} {rest : List (Transition Router Event)}
  (hquestion : Ask.question? method uri = .error verdict)
  (hfresh : r.manager.callers.find? c = none)
  (hts : ts = ⟨r, .ask c method uri, r.ask c method uri⟩ :: rest)
  (hrefused : ∀ t ∈ rest, t.before.asks[r.asks.length]? = some ⟨method, .answered verdict⟩ ∧
    t.before.step t.event = some t.after)

include hquestion hfresh hts hrefused

/-- A question that was refused has no caller, and only the step in which it comes is taken for
it. -/
theorem alone_of_refused :
    (∀ c', ¬Asker ts r.asks.length c') ∧ ∀ t ∈ ts, Handles ts t r.asks.length →
      t = ⟨r, .ask c method uri, r.ask c method uri⟩ := by
  have hlt : ∀ t ∈ rest, r.asks.length < t.before.asks.length := fun t ht =>
    (List.getElem?_eq_some_iff.mp (hrefused t ht).1).1
  have hunknown : ¬(r.ask c method uri).manager.callers.find? c ≠ none := by
    rw [ask_of_error hquestion]
    exact not_not_intro hfresh
  constructor
  · exact fun c' hasker => hunknown (eq_of_asker hts hlt hasker).2
  · intro t ht hhandles
    rw [hts] at ht
    refine (List.mem_cons.mp ht).resolve_right fun ht => ?_
    obtain ⟨hask, hstep⟩ := hrefused t ht
    have hevent := (concerns_of_handles hts hlt ht hhandles).2.resolve_left hunknown
    cases isOpen_of_step hstep hask hevent

theorem harmless_of_refused (domain? : Option String) :
    ∀ t ∈ ts, Handles ts t r.asks.length →
      Harmless t domain? ∧ t.after.manager.records = t.before.manager.records := by
  intro t ht hhandles
  obtain rfl := (alone_of_refused hquestion hfresh hts hrefused).2 t ht hhandles
  have hasked := ask_of_error hquestion r c
  have hrecords : (r.ask c method uri).manager.records = r.manager.records := by
    rw [hasked]
    rfl
  refine ⟨harmless_of_records (by simp [call?, hquestion]) ?_ ?_ hrecords, hrecords⟩ <;>
    rw [hasked] <;> rfl

end Refused

theorem asking_of_refused (hr : r.Known)
    (hquestion : Ask.question? method uri = .error .missingDomain)
    (hmissing : domain? = none ∨ domain? = some "")
    (hlater : Run.after? Router.step r (.ask c method uri :: later) = some last) :
    ∃ ask, last.asks[r.asks.length]? = some ask ∧
      Asking (trail Router.step r (.ask c method uri :: later)) r last r.asks.length domain?
        ask := by
  obtain ⟨hfresh, hrest, hts⟩ := asked_of_run hlater
  obtain ⟨hask, hrefused⟩ := refused_of_run hquestion hrest
  have honce := once_of_harmless hr hlater r.asks.length domain?
  have hafresh := afresh_of_untouched hlater r.asks.length
  generalize trail Router.step r (.ask c method uri :: later) = ts at *
  obtain ⟨hnobody, honly⟩ := alone_of_refused hquestion hfresh hts hrefused
  have hnothing : ∀ t s, ¬Gets ts t r.asks.length s := fun t s ⟨c', hasker, _⟩ =>
    hnobody c' hasker
  have hquiet := harmless_of_refused hquestion hfresh hts hrefused domain?
  have hharmless := fun t ht hhandles => (hquiet t ht hhandles).1
  have huntouched := fun t ht hhandles => (hquiet t ht hhandles).2
  have hstatus := Ask.status?_missingDomain method
  refine ⟨_, hask, ?_⟩
  constructor
  case harmless => exact hharmless
  case once => exact honce hharmless
  case missing => simpa [hstatus] using hmissing
  case notFound => simp [hstatus, hnothing]
  case approved => simp [hstatus, hnothing]
  case failed =>
    refine iff_of_false (by simp [hstatus]) ?_
    rintro ⟨-, ⟨domain, rfl, hdomain⟩, -⟩
    simp [hdomain] at hmissing
  case finds => exact fun t _ s hgets => absurd hgets (hnothing t s)
  case untouched => exact fun _ => huntouched
  case afresh => exact fun _ domain hnone halone => hafresh domain huntouched hnone halone
  case late =>
    intro t ht hevent
    obtain rfl := honly t ht (.expires hevent)
    cases hevent
  case unanswered =>
    intro hnone
    cases hstatus.symm.trans hnone

/-! ## Questions with a domain -/

/-- Where such a question is before each of the steps after it has come, and how it came to where
it is in the end. -/
theorem story_of_run (hr : r.Known) (hquestion : Ask.question? method uri = .ok domain)
    (hlater : Run.after? Router.step r (.ask c method uri :: later) = some last) :
    (∀ t ∈ trail Router.step (r.ask c method uri) later, t.before.Known ∧
      t.before.Placed r.asks.length method c r.now domain ∧
      t.before.step t.event = some t.after) ∧
    last.Known ∧ ∃ phase, AskStory (trail Router.step r (.ask c method uri :: later)) last
      r.asks.length method c r.now domain phase := by
  obtain ⟨hfresh, hrest, hts⟩ := asked_of_run hlater
  have hknown : (r.ask c method uri).Known :=
    hr.step (e := .ask c method uri) (by simp [Router.step, Table.has, hfresh])
  obtain ⟨phase, hstory⟩ := askStory_of_ask hr hfresh hquestion
  constructor
  · intro t ht
    obtain ⟨⟨hbefore, hplaced⟩, hstep⟩ := Run.before_of_mem_trail
      (P := fun s => s.Known ∧ s.Placed r.asks.length method c r.now domain)
      (fun hs hstep => ⟨hs.1.step hstep, hs.2.step hs.1 hstep⟩) ⟨hknown, hstory.placed⟩ ht
    exact ⟨hbefore, hplaced, hstep⟩
  · rw [hts]
    exact Run.trail_induction
      (P := fun ts s => s.Known ∧
        ∃ phase, AskStory ts s r.asks.length method c r.now domain phase)
      (fun hs hstep => ⟨hs.1.step hstep, hs.2.elim fun _ hstory => hstory.step hs.1 hstep⟩)
      [_] ⟨hknown, phase, hstory⟩ hrest

theorem asker_of_ask {rest : List (Transition Router Event)}
    (hfresh : r.manager.callers.find? c = none) (hquestion : Ask.question? method uri = .ok domain)
    (hts : ts = ⟨r, .ask c method uri, r.ask c method uri⟩ :: rest) :
    Asker ts r.asks.length c := by
  have hknown := find?_caller_ask hfresh hquestion
  exact ⟨_, hts ▸ List.mem_cons_self, method, uri, rfl, rfl, hknown⟩

section Looking

variable {rest : List (Transition Router Event)} (hr : r.Known)
  (hfresh : r.manager.callers.find? c = none)
  (hquestion : Ask.question? method uri = .ok domain)
  (hts : ts = ⟨r, .ask c method uri, r.ask c method uri⟩ :: rest)
  (hbefore : ∀ t ∈ rest, t.before.Known ∧ t.before.Placed r.asks.length method c r.now domain ∧
    t.before.step t.event = some t.after)

include hbefore

theorem length_lt_of_placed : ∀ t ∈ rest, r.asks.length < t.before.asks.length :=
  fun t ht => (hbefore t ht).2.1.lt

include hts

/-- What is taken for the question is the step in which it comes, or concerns it. -/
theorem concerns_of_placed (ht : t ∈ ts) (hhandles : Handles ts t r.asks.length) :
    t = ⟨r, .ask c method uri, r.ask c method uri⟩ ∨
      t ∈ rest ∧ Concerns t.event r.asks.length c := by
  have hlt := length_lt_of_placed hbefore
  rw [hts] at ht
  exact (List.mem_cons.mp ht).imp_right fun ht =>
    ⟨ht, (concerns_of_handles hts hlt ht hhandles).1⟩

theorem late_of_placed : ∀ t ∈ ts, t.event = .expire r.asks.length →
    r.now + Ask.limit.nanos ≤ t.before.now := by
  intro t ht hevent
  rcases concerns_of_placed hts hbefore ht (.expires hevent) with rfl | ⟨ht, -⟩
  · cases hevent
  · obtain ⟨-, hplaced, hstep⟩ := hbefore t ht
    rw [hevent] at hstep
    exact hplaced.late hstep

include hfresh hquestion

theorem gets_iff_shows {s : Snapshot} : Gets ts t r.asks.length s ↔ Shows t c s := by
  have hlt := length_lt_of_placed hbefore
  constructor
  · rintro ⟨c', hasker, hshows⟩
    obtain ⟨rfl, -⟩ := eq_of_asker hts hlt hasker
    exact hshows
  · exact fun hshows => ⟨c, asker_of_ask hfresh hquestion hts, hshows⟩

include hr

theorem harmless_of_placed :
    ∀ t ∈ ts, Handles ts t r.asks.length → Harmless t (some domain) := by
  intro t ht hhandles
  rcases concerns_of_placed hts hbefore ht hhandles with rfl | ⟨ht, hconcerns⟩
  · exact (harmless_ask hr hfresh hquestion).1
  · obtain ⟨hr', hplaced, hstep⟩ := hbefore t ht
    obtain ⟨caller, hcaller, rfl, hpurpose⟩ := hplaced.caller
    exact harmless_of_concerns hr' hcaller hpurpose hconcerns hstep

theorem untouched_of_story (hstory : AskStory ts last r.asks.length method c r.now domain phase)
    (hstatus : (⟨method, phase⟩ : Ask).status? ∈ [some 400, some 500]) :
    ∀ t ∈ ts, Handles ts t r.asks.length →
      t.after.manager.records = t.before.manager.records := by
  intro t ht hhandles
  have hfailed : (⟨method, phase⟩ : Ask).status? = some 500 := by
    simpa [hstory.status_ne] using hstatus
  rcases concerns_of_placed hts hbefore ht hhandles with rfl | ⟨-, hconcerns⟩
  · exact (harmless_ask hr hfresh hquestion).2
  · exact hstory.quiet hfailed ht hconcerns

end Looking

theorem asking_of_lookup (hr : r.Known) (hquestion : Ask.question? method uri = .ok domain)
    (hdomain : domain ≠ "")
    (hlater : Run.after? Router.step r (.ask c method uri :: later) = some last) :
    ∃ ask, last.asks[r.asks.length]? = some ask ∧
      Asking (trail Router.step r (.ask c method uri :: later)) r last r.asks.length
        (some domain) ask := by
  obtain ⟨hfresh, -, hts⟩ := asked_of_run hlater
  obtain ⟨hbefore, hlast, phase, hstory⟩ := story_of_run hr hquestion hlater
  have honce := once_of_harmless hr hlater r.asks.length (some domain)
  have hafresh := afresh_of_untouched hlater r.asks.length
  generalize trail Router.step r (.ask c method uri :: later) = ts at *
  have hgets : ∀ {t s}, Gets ts t r.asks.length s ↔ Shows t c s :=
    gets_iff_shows hfresh hquestion hts hbefore
  have hharmless := harmless_of_placed hr hfresh hquestion hts hbefore
  have huntouched := untouched_of_story hr hfresh hquestion hts hbefore hstory
  refine ⟨_, hstory.ask_eq, ?_⟩
  constructor
  case harmless => exact hharmless
  case once => exact honce hharmless
  case missing => simp [hstory.status_ne, hdomain]
  case notFound => simpa [hgets] using hstory.told_iff true
  case approved => simpa [hgets] using hstory.told_iff false
  case failed => simpa [hgets, hdomain] using hstory.failed_iff
  case finds => exact fun t ht s hs => ⟨domain, rfl, hstory.finds ht (hgets.mp hs)⟩
  case untouched => exact huntouched
  case afresh =>
    exact fun hstatus domain hnone halone => hafresh domain (huntouched hstatus) hnone halone
  case late => exact late_of_placed hts hbefore
  case unanswered =>
    have hasker := asker_of_ask hfresh hquestion hts
    exact fun hnone => (hstory.unanswered hlast hnone).imp_right fun hawaits => ⟨c, hasker, hawaits⟩

/-! ## Questions -/

/-- Whatever has happened before a question comes, and whatever else happens after that. -/
theorem asking_of_run {deadline wakeTimeout : Duration} {port : UInt16} {es : List Event}
    (hrun : Run.after? Router.step (start deadline port wakeTimeout) es = some r)
    (hcarries : Ask.Carries method uri domain?)
    (hlater : Run.after? Router.step r (.ask c method uri :: later) = some last) :
    ∃ ask, last.asks[r.asks.length]? = some ask ∧
      Asking (trail Router.step r (.ask c method uri :: later)) r last r.asks.length domain?
        ask := by
  obtain ⟨hr, -⟩ := (known_start deadline port wakeTimeout).run hrun
  by_cases hmissing : domain? = none ∨ domain? = some ""
  · exact asking_of_refused hr (hcarries.refused hmissing) hmissing hlater
  · rw [not_or] at hmissing
    obtain ⟨domain, rfl⟩ := Option.ne_none_iff_exists'.mp hmissing.1
    have hdomain : domain ≠ "" := fun hempty => hmissing.2 (congrArg some hempty)
    exact asking_of_lookup hr (hcarries.asks hdomain) hdomain hlater

/-- The target of a question about `ghost`. -/
def ghostCheck : Http.Uri := ⟨none, none, some "/check?domain=ghost"⟩

/-- Nothing is heard of the domain for too long. -/
def lateQuestion : List Event :=
  [.ask 1 "GET" ghostCheck, .upkeep (.manager (.elapse (.ofSeconds 10))), .expire 0]

/-- Whoever asks again is told that nobody serves the domain. -/
def nextQuestion : List Event :=
  [.ask 2 "HEAD" ghostCheck, .upkeep (.manager (.described 2 (.ok [])))]

theorem asking_of_run_twoQuestions :
    let first := start Manager.defaultResumeDeadline 80 (.ofSeconds 60)
    ∃ mid last late asked, Run.after? Router.step first lateQuestion = some mid ∧
      mid.asks = [late] ∧ late.status? = some 500 ∧ mid.Unknown "ghost" ∧
      Run.after? Router.step mid nextQuestion = some last ∧
      last.asks[1]? = some asked ∧ asked.status? = some 404 ∧
      ∃ t ∈ trail Router.step mid nextQuestion, ∃ s,
        Gets (trail Router.step mid nextQuestion) t 1 s ∧ s.state = .notFound := by
  have hcarries : ∀ {method}, method = "GET" ∨ method = "HEAD" →
      Ask.Carries method ghostCheck (some "ghost") := fun hmethod =>
    ⟨hmethod, "?domain=ghost".toList, by decide +kernel, .inr rfl, by decide +kernel⟩
  obtain ⟨mid, hmid, hchecks⟩ := (Option.any_eq_true _ _).mp
    (show (Run.after? Router.step (start Manager.defaultResumeDeadline 80 (.ofSeconds 60))
      lateQuestion).any (fun mid => mid.asks.map Ask.status? == [some 500] &&
        (trail Router.step (start Manager.defaultResumeDeadline 80 (.ofSeconds 60))
          lateQuestion).all (fun t => !t.after.manager.records.has "ghost") &&
        (Run.after? Router.step mid nextQuestion).any fun last =>
          last.asks.map Ask.status? == [some 500, some 404]) by decide +kernel)
  simp only [Bool.and_eq_true, beq_iff_eq, List.all_eq_true] at hchecks
  obtain ⟨⟨hlate, hunknown⟩, hnext⟩ := hchecks
  obtain ⟨last, hlast, hasked⟩ := (Option.any_eq_true _ _).mp hnext
  rw [beq_iff_eq] at hasked
  obtain ⟨late, hasks, hstatus⟩ := List.map_eq_singleton_iff.mp hlate
  -- The first question is answered too late, the second one by the record of its domain.
  have hfirst : Run.after? Router.step (start Manager.defaultResumeDeadline 80 (.ofSeconds 60)) [] =
    some (start Manager.defaultResumeDeadline 80 (.ofSeconds 60)) := rfl
  obtain ⟨ask, hask, hasking⟩ := asking_of_run hfirst (hcarries (.inl rfl)) hmid
  obtain rfl : ask = late := by simpa [hasks, start] using hask.symm
  obtain ⟨asked, hasked', hasking'⟩ := asking_of_run hmid (hcarries (.inr rfl)) hlast
  rw [hasks, List.length_singleton] at hasked' hasking'
  have hfound : asked.status? = some 404 := by
    have hget := congrArg (fun statuses => statuses[1]?) hasked
    simpa [hasked'] using hget
  refine ⟨mid, last, ask, asked, hmid, hasks, hstatus, ?_, hlast, hasked', hfound,
    hasking'.notFound.mp hfound⟩
  refine hasking.afresh (by simp [hstatus]) "ghost" rfl fun t ht hadds => ?_
  have hhas := hunknown t ht
  rw [Bool.not_eq_true', Table.has_eq_false_iff] at hhas
  exact absurd hhas hadds.2

end WakeRouter.Router
