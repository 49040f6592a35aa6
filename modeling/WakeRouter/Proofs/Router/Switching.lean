import WakeRouter.Proofs.Proxy.Rewriting
import WakeRouter.Proofs.Router.Questions
import WakeRouter.Proofs.Router.Sessions

/-!
# Switching protocols

A machine switches protocols with the status 101 of its response, and then the connections of
client and machine become one tunnel: but only if the client asked for that and its connection
can switch.  Whether it asked is looked at twice, before the request is rewritten and while it
is; `Router.ByConsent` says what client and machine see of it.
-/

namespace WakeRouter

namespace Http

/-! ## Bodies of responses -/

theorem Wire.body_of_readResponse? {method : String} {bytes : Bytes} {upstream : Response}
    (hread : readResponse? method bytes = some upstream)
    (hbodiless : isBodiless method upstream.status) : upstream.body = .empty := by
  unfold readResponse? at hread
  simp only [bind, Option.bind_eq_some_iff] at hread
  obtain ⟨⟨first, headers, rest⟩, -, hrest⟩ := hread
  split at hrest
  next =>
    cases hrest
    rfl
  next hbody =>
    obtain ⟨body, -, hresponse⟩ := Option.bind_eq_some_iff.mp hrest
    cases hresponse
    exact absurd hbodiless hbody

/-- What a router takes off a response, no response has on the wire. -/
theorem Response.body_routed {method : String} {r : Response}
    (hbody : Wire.isBodiless method r.status → r.body = .empty) :
    (r.routed method).body = r.body := by
  unfold routed
  split
  next hconnect =>
    simp only [Bool.and_eq_true, isSuccess, decide_eq_true_eq] at hconnect
    exact (hbody (by simp [Wire.isBodiless, hconnect])).symm
  next =>
    dsimp only
    split
    next hhead => exact (hbody (by simp [Wire.isBodiless, hhead])).symm
    next => rfl

/-- The only line that a router adds to a response is one that it lacks. -/
theorem Response.name_of_mem_lengthLines {method : String} {r : Response} {line : Header}
    (hline : line ∈ r.lengthLines method) :
    line.name = "content-length" ∧ "content-length" ∉ r.headers.map Header.name := by
  have hname := Response.all_of_mem_lengthLines (List.mem_map_of_mem hline)
  have hcontentLength : line.name = "content-length" := by
    unfold lengthLines at hline
    split at hline
    · cases hline
    · split at hline
      · rw [List.mem_singleton.mp hline]
        rfl
      · cases hline
  rw [hcontentLength] at hname
  exact ⟨hcontentLength, Headers.all_eq_nil_iff.mp hname.2⟩

/-- What the client gets of a response to a request with that method. -/
structure Response.PassedOn (upstream : Response) (method : String) (got : Response) : Prop where
  status : got.status = upstream.status
  unchanged : ∀ name ∉ Headers.hopByHop,
    name ≠ "content-length" ∨ upstream.headers.all name ≠ [] →
    got.headers.all name = upstream.headers.all name
  stripped : ∀ name ∈ Headers.hopByHop, got.headers.all name = []
  /-- The lines stay in order, and only a length is added, to a response that says none. -/
  headers : ∃ added,
    got.headers = (upstream.headers.filter fun line => line.name ∉ Headers.hopByHop) ++ added ∧
    ∀ line ∈ added, line.name = "content-length" ∧
      "content-length" ∉ upstream.headers.map Header.name
  /-- A response to that method that was read off a connection keeps its body. -/
  body : ∀ bytes, Wire.readResponse? method bytes = some upstream → got.body = upstream.body

theorem Response.passedOn_routed (method : String) (upstream : Response) :
    upstream.PassedOn method
      ({ upstream with headers := upstream.headers.stripHopByHop }.routed method) := by
  let stripped : Response := { upstream with headers := upstream.headers.stripHopByHop }
  have hadded : ∀ line ∈ stripped.lengthLines method, line.name = "content-length" ∧
      "content-length" ∉ upstream.headers.map Header.name := by
    intro line hline
    obtain ⟨hname, hlacking⟩ := name_of_mem_lengthLines hline
    refine ⟨hname, fun hthere => hlacking ?_⟩
    obtain ⟨other, hother, hsame⟩ := List.mem_map.mp hthere
    have hkept : other ∈ upstream.headers.stripHopByHop :=
      List.mem_filter.mpr ⟨hother, by rw [hsame]; decide⟩
    exact List.mem_map.mpr ⟨other, hkept, hsame⟩
  have hall : ∀ name, name ≠ "content-length" ∨ upstream.headers.all name ≠ [] →
      (stripped.routed method).headers.all name = upstream.headers.stripHopByHop.all name := by
    intro name hname
    have hnone : Headers.all (stripped.lengthLines method) name = [] := by
      refine Headers.all_eq_nil_iff.mpr fun hmem => ?_
      obtain ⟨line, hline, rfl⟩ := List.mem_map.mp hmem
      obtain ⟨hlength, hlacking⟩ := hadded line hline
      rw [hlength] at hname
      exact hname.elim (absurd rfl) (absurd (Headers.all_eq_nil_iff.mpr hlacking))
    rw [headers_routed, Headers.all_append, hnone, List.append_nil]
  constructor
  case status => exact status_routed ..
  case unchanged =>
    intro name hhop hname
    rw [hall name hname, Headers.all_stripHopByHop, if_neg hhop]
  case stripped =>
    intro name hhop
    have hname : name ≠ "content-length" := by
      rintro rfl
      exact absurd hhop (by decide)
    rw [hall name (.inl hname), Headers.all_stripHopByHop, if_pos hhop]
  case headers =>
    refine ⟨_, ?_, hadded⟩
    rw [headers_routed]
    congr 1
    exact List.filter_congr fun line _ => by simp
  case body =>
    intro bytes hread
    have hbodiless := Wire.body_of_readResponse? hread
    exact body_routed hbodiless

/-! ## The lines of an upgrade -/

namespace Headers

/-- The lines that went ask for the upgrade that those that came ask for first. -/
def CarriesUpgrade (came went : Headers) : Prop :=
  went.all "connection" = [.ofText "connection" "upgrade"] ∧
    ∃ protocol, (came.all "upgrade").head? = some protocol ∧ went.all "upgrade" = [protocol]

variable {headers : Headers}

theorem all_forwarded_hop (client? : Option Net.Ip) {name : String} (hname : name ∈ hopByHop) :
    (headers.forwarded client?).all name = headers.upgradeLines.all name := by
  rw [all_forwarded, if_pos hname]

theorem carriesUpgrade_forwarded (hasks : headers.AsksUpgrade) (client? : Option Net.Ip) :
    headers.CarriesUpgrade (headers.forwarded client?) := by
  unfold CarriesUpgrade
  rw [all_forwarded_hop client? (by decide), all_forwarded_hop client? (by decide)]
  exact all_upgradeLines_of_asks hasks

theorem all_forwarded_of_not_asks (hasks : ¬headers.AsksUpgrade) (client? : Option Net.Ip) :
    ∀ name ∈ ["connection", "upgrade"], (headers.forwarded client?).all name = [] := by
  intro name hname
  have hhop : name ∈ hopByHop := (by decide : ∀ name ∈ ["connection", "upgrade"],
    name ∈ hopByHop) name hname
  rw [all_forwarded_hop client? hhop, upgradeLines_of_not_asks hasks]
  rfl

end Headers

end Http

/-! ## What the machine's response makes of an exchange -/

namespace Exchange

variable {exchange : Exchange} {upstream : Http.Response}

/-- The client asked for another protocol, and its connection can switch. -/
def Consents (exchange : Exchange) : Prop :=
  exchange.request.headers.AsksUpgrade ∧ exchange.upgradable

theorem wantsUpgrade_iff : exchange.wantsUpgrade ↔ exchange.Consents := by
  rw [wantsUpgrade, Bool.and_eq_true, and_comm, Consents, Http.Headers.asksUpgrade_iff]

theorem conclude_of_consents (hstatus : upstream.status = 101) (hconsents : exchange.Consents) :
    exchange.conclude (.response upstream) = .tunnelling upstream := by
  simp [conclude, hstatus, wantsUpgrade_iff.mpr hconsents]

theorem conclude_of_not_consents (hstatus : upstream.status = 101)
    (hconsents : ¬exchange.Consents) :
    exchange.conclude (.response upstream) = .refused .unexpectedUpgrade := by
  simp [conclude, hstatus, mt wantsUpgrade_iff.mp hconsents]

theorem conclude_of_status_ne (hstatus : upstream.status ≠ 101) :
    exchange.conclude (.response upstream) =
      .answered { upstream with headers := upstream.headers.stripHopByHop } := by
  simp [conclude, hstatus]

theorem conclude_eq_tunnelling_iff {response : Http.Response} :
    exchange.conclude (.response upstream) = .tunnelling response ↔
      (upstream.status = 101 ∧ exchange.Consents) ∧ upstream = response := by
  by_cases hstatus : upstream.status = 101
  · by_cases hconsents : exchange.Consents
    · simp [conclude_of_consents hstatus hconsents, hstatus, hconsents]
    · simp [conclude_of_not_consents hstatus hconsents, hconsents]
  · simp [conclude_of_status_ne hstatus, hstatus]

/-- With a response the exchange is past waiting for one. -/
theorem isPending_conclude (exchange : Exchange) (upstream : Http.Response) :
    { exchange with phase := exchange.conclude (.response upstream) }.isPending = false := by
  unfold conclude
  dsimp only
  split
  · split <;> rfl
  · rfl

end Exchange

namespace Router

open Http (Request Response)

variable {r next : Router} {e : Event} {x : ExchangeId} {exchange : Exchange}
  {ts : List (Run.Transition Router Event)} {phase : ExchangePhase}

/-- The machine has answered the request with that response. -/
def Answered (ts : List (Run.Transition Router Event)) (x : ExchangeId) (upstream : Response) :
    Prop :=
  ∃ t ∈ ts, t.event = .replied x (.response upstream)

/-- What the exchange is, the machine's response has made of it, and a tunnel that has ended. -/
structure Concluded (ts : List (Run.Transition Router Event)) (x : ExchangeId)
    (exchange : Exchange) : Prop where
  answered : ∀ {upstream}, Answered ts x upstream →
    exchange.phase = exchange.conclude (.response upstream) ∨
      exchange.conclude (.response upstream) = .tunnelling upstream ∧
        exchange.phase = .closed upstream
  spliced : ∀ {response},
    exchange.phase = .tunnelling response ∨ exchange.phase = .closed response →
    exchange.conclude (.response response) = .tunnelling response ∧ Answered ts x response

theorem answered_concat {upstream : Response} {t : Run.Transition Router Event} :
    Answered (ts ++ [t]) x upstream ↔
      Answered ts x upstream ∨ t.event = .replied x (.response upstream) := by
  simp [Answered, or_and_right, exists_or]

theorem Concluded.not_answered (hconcluded : Concluded ts x exchange)
    (hpending : exchange.isPending) (upstream : Response) : ¬Answered ts x upstream := by
  intro hanswered
  rcases hconcluded.answered hanswered with hphase | ⟨-, hphase⟩
  · have hpast := exchange.isPending_conclude upstream
    rw [← hphase] at hpast
    exact absurd hpending (by simpa using hpast)
  · simp [Exchange.isPending, hphase] at hpending

theorem concluded_of_unanswered (hunanswered : ∀ upstream, ¬Answered ts x upstream)
    (hphase : ∀ response,
      exchange.phase ≠ .tunnelling response ∧ exchange.phase ≠ .closed response) :
    Concluded ts x exchange := by
  refine ⟨fun hanswered => absurd hanswered (hunanswered _), ?_⟩
  rintro response (htunnelling | hclosed)
  · exact absurd htunnelling (hphase response).1
  · exact absurd hclosed (hphase response).2

theorem move_of_replied {reply : Http.Reply} (hstep : r.step (.replied x reply) = some next)
    (hexchange : r.exchanges[x]? = some exchange) :
    exchange.isPending ∧
      next.exchanges[x]? = some { exchange with phase := exchange.conclude reply } := by
  cases move_of_step hstep with
  | replied hexchange' hphase =>
      obtain rfl := Option.some.inj (hexchange.symm.trans hexchange')
      refine ⟨by simp [Exchange.isPending, hphase], ?_⟩
      show (withPhase r.exchanges x _)[x]? = _
      rw [getElem?_withPhase, if_pos rfl, hexchange]
      rfl

/-- The first response is the only one. -/
theorem concluded_of_reply (hunanswered : ∀ upstream, ¬Answered ts x upstream)
    (hpending : exchange.isPending) (reply : Http.Reply) :
    Concluded (ts ++ [⟨r, .replied x reply, next⟩]) x
      { exchange with phase := exchange.conclude reply } := by
  have hanswered : ∀ upstream, Answered (ts ++ [⟨r, .replied x reply, next⟩]) x upstream →
      reply = .response upstream := by
    intro upstream hanswered
    rcases answered_concat.mp hanswered with hold | hnew
    · exact absurd hold (hunanswered upstream)
    · simpa using hnew
  cases reply with
  | nothing =>
      refine concluded_of_unanswered (fun upstream h => by cases hanswered upstream h) ?_
      intro response
      constructor <;>
        · intro hphase
          have hphase : exchange.phase = _ := hphase
          simp [Exchange.isPending, hphase] at hpending
  | broken =>
      refine concluded_of_unanswered (fun upstream h => by cases hanswered upstream h) ?_
      simp [Exchange.conclude]
  | response upstream =>
      constructor
      case answered =>
        intro upstream' h
        cases hanswered upstream' h
        exact .inl rfl
      case spliced =>
        rintro response (htunnelling | hclosed)
        · have hphase : exchange.conclude (.response upstream) = .tunnelling response := htunnelling
          obtain ⟨hconsent, rfl⟩ := Exchange.conclude_eq_tunnelling_iff.mp hphase
          exact ⟨hphase, answered_concat.mpr (.inr rfl)⟩
        · have hphase : exchange.conclude (.response upstream) = .closed response := hclosed
          unfold Exchange.conclude at hphase
          dsimp only at hphase
          split at hphase
          · split at hphase <;> cases hphase
          · cases hphase

theorem Concluded.change (hconcluded : Concluded ts x exchange)
    (hchange : r.PhaseChange x exchange e phase) (hother : ∀ reply, e ≠ .replied x reply) :
    Concluded (ts ++ [⟨r, e, next⟩]) x { exchange with phase := phase } := by
  have hanswered : ∀ upstream, Answered (ts ++ [⟨r, e, next⟩]) x upstream ↔
      Answered ts x upstream := by
    intro upstream
    rw [answered_concat]
    exact or_iff_left (hother _)
  have hwaits : exchange.isPending →
      ∀ upstream, ¬Answered (ts ++ [⟨r, e, next⟩]) x upstream := by
    intro hpending upstream h
    exact hconcluded.not_answered hpending upstream ((hanswered upstream).mp h)
  cases hchange with
  | kept =>
      constructor
      case answered => exact fun h => hconcluded.answered ((hanswered _).mp h)
      case spliced =>
        intro response hphase
        obtain ⟨hconclude, h⟩ := hconcluded.spliced hphase
        exact ⟨hconclude, (hanswered response).mpr h⟩
  | refused hensuring =>
      exact concluded_of_unanswered (hwaits (by simp [Exchange.isPending, hensuring])) (by simp)
  | forwarded hensuring address =>
      apply concluded_of_unanswered (hwaits (by simp [Exchange.isPending, hensuring]))
      intro response
      have hsent := isSent_forward exchange r.port address
      constructor <;>
        · intro hphase
          have hphase : exchange.forward r.port address = _ := hphase
          rw [hphase] at hsent
          cases hsent
  | replied _ reply => exact absurd rfl (hother reply)
  | @closed response htunnelling =>
      obtain ⟨hconclude, h⟩ := hconcluded.spliced (.inl htunnelling)
      constructor
      case answered =>
        intro upstream hupstream
        rcases hconcluded.answered ((hanswered upstream).mp hupstream) with hphase | ⟨_, hphase⟩
        · rw [htunnelling] at hphase
          obtain ⟨_, rfl⟩ := Exchange.conclude_eq_tunnelling_iff.mp hphase.symm
          exact .inr ⟨hconclude, rfl⟩
        · cases htunnelling.symm.trans hphase
      case spliced =>
        rintro response' (hphase | hphase)
        · cases hphase
        · cases hphase
          exact ⟨hconclude, (hanswered response).mpr h⟩
  | dropped hpending => exact concluded_of_unanswered (hwaits hpending) (by simp)

theorem Concluded.step (hconcluded : Concluded ts x exchange)
    (hexchange : r.exchanges[x]? = some exchange) (hstep : r.step e = some next) :
    ∃ phase, next.exchanges[x]? = some { exchange with phase := phase } ∧
      Concluded (ts ++ [⟨r, e, next⟩]) x { exchange with phase := phase } := by
  by_cases hreplied : ∃ reply, e = .replied x reply
  · obtain ⟨reply, rfl⟩ := hreplied
    obtain ⟨hpending, hnext⟩ := move_of_replied hstep hexchange
    exact ⟨_, hnext, concluded_of_reply (hconcluded.not_answered hpending) hpending reply⟩
  · obtain ⟨phase, hchange, hnext⟩ := exists_phaseChange hstep hexchange
    exact ⟨phase, hnext, hconcluded.change hchange fun reply he => hreplied ⟨reply, he⟩⟩

/-- No machine answers a request that has not come. -/
def ConcludedIf (ts : List (Run.Transition Router Event)) (x : ExchangeId) :
    Option Exchange → Prop
  | none => ∀ upstream, ¬Answered ts x upstream
  | some exchange => Concluded ts x exchange

theorem ConcludedIf.step (hconcluded : ConcludedIf ts x r.exchanges[x]?)
    (hstep : r.step e = some next) : ConcludedIf (ts ++ [⟨r, e, next⟩]) x next.exchanges[x]? := by
  cases hexchange : r.exchanges[x]? with
  | some exchange =>
      rw [hexchange] at hconcluded
      obtain ⟨phase, hnext, hlater⟩ := Concluded.step hconcluded hexchange hstep
      rw [hnext]
      exact hlater
  | none =>
      rw [hexchange] at hconcluded
      have hunanswered : ∀ upstream, ¬Answered (ts ++ [⟨r, e, next⟩]) x upstream := by
        intro upstream hanswered
        rcases answered_concat.mp hanswered with hold | hnew
        · exact hconcluded upstream hold
        · obtain rfl : e = .replied x (.response upstream) := hnew
          cases move_of_step hstep with
          | replied hsome => cases hexchange.symm.trans hsome
      have hchange := exchangeChange_of_step hstep x
      rw [hexchange] at hchange
      generalize next.exchanges[x]? = after at hchange
      cases hchange with
      | absent => exact hunanswered
      | arrived harrival =>
          rcases harrival.phase with ⟨_, hphase⟩ | ⟨_, c, hphase⟩ <;>
            exact concluded_of_unanswered hunanswered (by simp [hphase])

theorem concluded_of_run {deadline : Duration} {port : UInt16} {wakeTimeout : Duration}
    {es : List Event} (hrun : Run.after? step (start deadline port wakeTimeout) es = some r)
    (hexchange : r.exchanges[x]? = some exchange) :
    Concluded (Run.trail step (start deadline port wakeTimeout) es) x exchange := by
  have hall := Run.trail_induction (P := fun ts r => ConcludedIf ts x r.exchanges[x]?)
    (fun hconcluded hstep => hconcluded.step hstep) []
    (by simp [start, ConcludedIf, Answered]) hrun
  rw [hexchange] at hall
  exact hall

/-! ## The law -/

/-- The step is activity of that key, and of no other. -/
def RecordsActivity (r next : Router) (key : String) : Prop :=
  ∃ record, r.manager.records.find? key = some record ∧
    ∀ key', next.manager.records.find? key' =
      if key' = key then some { record with lastActivity := r.now }
      else r.manager.records.find? key'

/-- A protocol is switched just if client and machine both want it. -/
structure ByConsent (ts : List (Run.Transition Router Event)) (r : Router) (x : ExchangeId)
    (exchange : Exchange) : Prop where
  /-- The machine is asked just for what the client asked for. -/
  offered : ∀ sent, exchange.phase = .forwarded sent →
    (exchange.request.headers.AsksUpgrade →
      exchange.request.headers.CarriesUpgrade sent.headers) ∧
    (¬exchange.request.headers.AsksUpgrade →
      ∀ name ∈ ["connection", "upgrade"], sent.headers.all name = [])
  spliced : (∃ response, exchange.phase = .tunnelling response ∨
      exchange.phase = .closed response) ↔
    exchange.Consents ∧ ∃ upstream, Answered ts x upstream ∧ upstream.status = 101
  switched : ∀ upstream, Answered ts x upstream → upstream.status = 101 → exchange.Consents →
    exchange.response? = some upstream
  unexpected : ∀ upstream, Answered ts x upstream → upstream.status = 101 → ¬exchange.Consents →
    exchange.phase = .refused .unexpectedUpgrade ∧
      ∃ got, exchange.response? = some got ∧ got.status = 502
  passed : ∀ upstream, Answered ts x upstream → upstream.status ≠ 101 →
    ∃ got, exchange.response? = some got ∧ upstream.PassedOn exchange.request.method got
  /-- Nothing else gets a switch of protocols to the client. -/
  seen : ∀ got, exchange.response? = some got → got.status = 101 →
    exchange.Consents ∧ Answered ts x got
  /-- A tunnel stays until it ends, which it always can. -/
  closes : ∀ response, exchange.phase = .tunnelling response →
    requestKey? exchange.request.headers exchange.request.uri = some exchange.key ∧
      (∃ next, r.step (.close x) = some next) ∧
      ∀ e next, r.step e = some next →
        e ≠ .close x ∧ next.exchanges[x]? = some exchange ∨
        e = .close x ∧ next.exchanges[x]? = some { exchange with phase := .closed response } ∧
          RecordsActivity r next exchange.key

theorem seen_of_concluded (hconcluded : Concluded ts x exchange) (htraced : Traced ts x exchange)
    {got : Response} (hgot : exchange.response? = some got) (hstatus : got.status = 101) :
    exchange.Consents ∧ Answered ts x got := by
  have hspliced : exchange.phase = .tunnelling got ∨ exchange.phase = .closed got := by
    unfold Exchange.response? at hgot
    split at hgot
    next refusal _ =>
      obtain rfl := Option.some.inj hgot
      rw [Http.Response.status_routed] at hstatus
      cases refusal <;> cases hstatus
    next response hphase =>
      obtain ⟨upstream, -, hother, rfl⟩ := htraced.answered hphase
      obtain rfl := Option.some.inj hgot
      rw [Http.Response.status_routed] at hstatus
      exact absurd hstatus hother
    next hphase => exact .inl (Option.some.inj hgot ▸ hphase)
    next hphase => exact .inr (Option.some.inj hgot ▸ hphase)
    all_goals cases hgot
  obtain ⟨hconclude, hanswered⟩ := hconcluded.spliced hspliced
  exact ⟨(Exchange.conclude_eq_tunnelling_iff.mp hconclude).1.2, hanswered⟩

theorem phase_of_answered (hconcluded : Concluded ts x exchange) {upstream : Response}
    (hanswered : Answered ts x upstream) (hnot : upstream.status ≠ 101 ∨ ¬exchange.Consents) :
    exchange.phase = exchange.conclude (.response upstream) := by
  refine (hconcluded.answered hanswered).resolve_right fun ⟨hconclude, _⟩ => ?_
  obtain ⟨⟨hstatus, hconsents⟩, -⟩ := Exchange.conclude_eq_tunnelling_iff.mp hconclude
  exact hnot.elim (fun h => h hstatus) fun h => h hconsents

theorem closes_of_run {deadline : Duration} {port : UInt16} {wakeTimeout : Duration}
    {es : List Event} (hrun : Run.after? step (start deadline port wakeTimeout) es = some r)
    (hexchange : r.exchanges[x]? = some exchange) {response : Response}
    (htunnelling : exchange.phase = .tunnelling response) (hstep : r.step e = some next) :
    e ≠ .close x ∧ next.exchanges[x]? = some exchange ∨
      e = .close x ∧ next.exchanges[x]? = some { exchange with phase := .closed response } ∧
        RecordsActivity r next exchange.key := by
  by_cases he : e = .close x
  · subst he
    refine .inr ⟨rfl, ?_⟩
    cases move_of_step hstep with
    | close hexchange' hphase =>
        obtain rfl := Option.some.inj (hexchange.symm.trans hexchange')
        obtain rfl := ExchangePhase.tunnelling.inj (htunnelling.symm.trans hphase)
        constructor
        · show (withPhase r.exchanges x _)[x]? = _
          rw [getElem?_withPhase, if_pos rfl, hexchange]
          rfl
        · obtain ⟨record, -, hrecord, -⟩ := (accounts_of_run hrun).latest hexchange
            (by rw [htunnelling]; rfl)
          refine ⟨record, hrecord, fun key => ?_⟩
          show (r.manager.touch exchange.key).records.find? key = _
          split
          next hkey =>
            subst hkey
            exact Manager.find?_touch hrecord
          next hkey => exact Manager.find?_touch_of_ne hkey
  · obtain ⟨phase, hchange, hnext⟩ := exists_phaseChange hstep hexchange
    refine .inl ⟨he, ?_⟩
    cases hchange with
    | kept => exact hnext
    | refused hother | forwarded hother | replied hother => cases htunnelling.symm.trans hother
    | closed => exact absurd rfl he
    | dropped hpending => simp [Exchange.isPending, htunnelling] at hpending

/-- Every exchange of every run, however the requests, responses and ends of tunnels of others
come in between. -/
theorem byConsent_of_run {deadline : Duration} {port : UInt16} {wakeTimeout : Duration}
    {es : List Event} (hrun : Run.after? step (start deadline port wakeTimeout) es = some r)
    (hexchange : r.exchanges[x]? = some exchange) :
    ByConsent (Run.trail step (start deadline port wakeTimeout) es) r x exchange := by
  have hconcluded := concluded_of_run hrun hexchange
  have htraced := traced_of_run hrun hexchange
  constructor
  case offered =>
    intro sent hsent
    obtain ⟨authority, hforward⟩ := htraced.sent hsent
    rw [Request.headers_of_forward? hforward]
    exact ⟨fun hasks => Http.Headers.carriesUpgrade_forwarded hasks _,
      fun hasks => Http.Headers.all_forwarded_of_not_asks hasks _⟩
  case spliced =>
    constructor
    · rintro ⟨response, hphase⟩
      obtain ⟨hconclude, hanswered⟩ := hconcluded.spliced hphase
      obtain ⟨⟨hstatus, hconsents⟩, -⟩ := Exchange.conclude_eq_tunnelling_iff.mp hconclude
      exact ⟨hconsents, response, hanswered, hstatus⟩
    · rintro ⟨hconsents, upstream, hanswered, hstatus⟩
      refine ⟨upstream, (hconcluded.answered hanswered).imp (fun hphase => ?_) And.right⟩
      rw [hphase, Exchange.conclude_of_consents hstatus hconsents]
  case switched =>
    intro upstream hanswered hstatus hconsents
    rcases hconcluded.answered hanswered with hphase | ⟨-, hphase⟩
    · rw [Exchange.conclude_of_consents hstatus hconsents] at hphase
      simp [Exchange.response?, hphase]
    · simp [Exchange.response?, hphase]
  case unexpected =>
    intro upstream hanswered hstatus hconsents
    have hphase := phase_of_answered hconcluded hanswered (.inr hconsents)
    rw [Exchange.conclude_of_not_consents hstatus hconsents] at hphase
    exact ⟨hphase, _, by rw [Exchange.response?, hphase], Http.Response.status_routed ..⟩
  case passed =>
    intro upstream hanswered hstatus
    have hphase := phase_of_answered hconcluded hanswered (.inl hstatus)
    rw [Exchange.conclude_of_status_ne hstatus] at hphase
    exact ⟨_, by rw [Exchange.response?, hphase], upstream.passedOn_routed _⟩
  case seen => exact fun got hgot hstatus => seen_of_concluded hconcluded htraced hgot hstatus
  case closes =>
    intro response htunnelling
    refine ⟨?_, ?_, fun e next hstep => closes_of_run hrun hexchange htunnelling hstep⟩
    · rcases keyed_of_run hrun hexchange with ⟨-, hphase⟩ | ⟨hkey, -⟩
      · cases htunnelling.symm.trans hphase
      · exact hkey
    · simp [step, hexchange, htunnelling]

/-- A machine's response that switches to the protocol that `upgradeRequest` asks for. -/
def echoResponse : Response where
  status := 101
  version := .v11
  headers := [.ofText "connection" "upgrade", .ofText "upgrade" "echo"]
  body := .empty

/-- The protocol is switched for a client that asked for it, then for one whose connection cannot
switch; a third one asked for nothing. -/
def threeResponses : List Event :=
  [.request 1 upgradeRequest none true,
    .upkeep (.manager (.described 1 (.ok [⟨"vm-1", "10.0.0.5", "Running", ["alpha"]⟩]))),
    .upkeep (.manager (.engage 1)), .replied 0 (.response echoResponse),
    .request 2 upgradeRequest none false, .upkeep (.manager (.engage 2)),
    .replied 1 (.response echoResponse),
    .request 3 (hopRequest []) none true, .upkeep (.manager (.engage 3)),
    .replied 2 (.response ⟨200, .v11, knownLines, .empty⟩)]

theorem byConsent_of_run_threeResponses :
    ∃ r first second third,
      Run.after? step (.start Manager.defaultResumeDeadline 80 (.ofSeconds 60)) threeResponses =
        some r ∧
      r.exchanges = [first, second, third] ∧
      first.response? = some echoResponse ∧ second.phase = .refused .unexpectedUpgrade ∧
      (∃ got, third.response? = some got ∧ got.status = 200) ∧
      ∃ next, r.step (.close 0) = some next ∧ RecordsActivity r next "alpha" := by
  let trail := Run.trail step (.start Manager.defaultResumeDeadline 80 (.ofSeconds 60))
    threeResponses
  have hanswered : Answered trail 0 echoResponse ∧ Answered trail 1 echoResponse ∧
      Answered trail 2 ⟨200, .v11, knownLines, .empty⟩ :=
    ⟨⟨_, List.mem_of_getElem? (i := 3) rfl, rfl⟩, ⟨_, List.mem_of_getElem? (i := 6) rfl, rfl⟩,
      ⟨_, List.mem_of_getElem? (i := 9) rfl, rfl⟩⟩
  obtain ⟨r, first, second, third, hrun, hexchanges, hfirst, hsecond, hkey, hphase⟩ :
      ∃ r first second third,
        Run.after? step (.start Manager.defaultResumeDeadline 80 (.ofSeconds 60)) threeResponses =
          some r ∧
        r.exchanges = [first, second, third] ∧ first.wantsUpgrade ∧ second.wantsUpgrade = false ∧
        first.key = "alpha" ∧ first.phase = .tunnelling echoResponse :=
    ⟨_, _, _, _, rfl, rfl, rfl, rfl, rfl, rfl⟩
  have hlaw : ∀ {x exchange}, [first, second, third][x]? = some exchange →
      ByConsent trail r x exchange :=
    fun hexchange => byConsent_of_run hrun (hexchanges ▸ hexchange)
  have hlaw₀ : ByConsent trail r 0 first := hlaw rfl
  have hlaw₁ : ByConsent trail r 1 second := hlaw rfl
  have hlaw₂ : ByConsent trail r 2 third := hlaw rfl
  have hrefuses : ¬second.Consents := fun hconsents => by
    rw [Exchange.wantsUpgrade_iff.mpr hconsents] at hsecond
    cases hsecond
  obtain ⟨got, hgot, hpassed⟩ := hlaw₂.passed _ hanswered.2.2 (by decide)
  obtain ⟨-, ⟨next, hnext⟩, hcloses⟩ := hlaw₀.closes _ hphase
  obtain ⟨hother, -⟩ | ⟨-, -, hactivity⟩ := hcloses _ _ hnext
  · exact absurd rfl hother
  · exact ⟨r, first, second, third, hrun, hexchanges,
      hlaw₀.switched _ hanswered.1 rfl (Exchange.wantsUpgrade_iff.mp hfirst),
      (hlaw₁.unexpected _ hanswered.2.1 rfl hrefuses).1, ⟨got, hgot, hpassed.status⟩, next, hnext,
      hkey ▸ hactivity⟩

end Router

end WakeRouter
