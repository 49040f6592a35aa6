import WakeRouter.Proofs.Proxy.Forward
import WakeRouter.Proofs.Router.Exchanges

/-!
# The host that the machine is told

A request is routed by its first `Host` line, or by the authority of its target if that line is
missing or no text.  The machine is told the host by the `Host` line alone.  So it is told the
host by which the request was routed if there is a line that says so, and otherwise hears what
the client says about it, or nothing.
-/

namespace WakeRouter

namespace Http.Headers

/-- There is one line with the forwarded host, and the host is one of the key. -/
def NamesRoute (headers : Headers) (key : String) : Prop :=
  ∃ line, headers.all "x-forwarded-host" = [line] ∧
    line.text?.bind hostKey? = some key.toList

/-- The first `Host` line is a text. -/
def SaysHost (headers : Headers) : Prop :=
  ∃ line text, headers.find? "host" = some line ∧ line.text? = some text

variable {headers : Headers} {client? : Option Net.Ip} {key : String} {uri : Uri}

theorem all_forwarded_host (headers : Headers) (client? : Option Net.Ip) :
    (headers.forwarded client?).all "x-forwarded-host" =
      match headers.find? "host" with
      | some host => [{ host with name := "x-forwarded-host" }]
      | none => headers.all "x-forwarded-host" := by
  have hmem : "x-forwarded-host" ∈ (headers.ownLines client?).map Header.name ↔
      headers.has "host" := by
    rw [names_ownLines]
    cases headers.has "host" <;> cases client? <;> simp
  have hhas : headers.has "host" = (headers.find? "host").isSome := by
    rw [Bool.eq_iff_iff]
    simp [has, find?]
  have hlines : (headers.ownLines client?).all "x-forwarded-host" = headers.hostLines := by
    unfold ownLines hostLines
    cases headers.find? "host" <;> cases client? <;> rfl
  rw [all_forwarded, if_neg (by decide), hlines]
  simp only [hmem, hhas, hostLines]
  cases headers.find? "host" <;> rfl

/-- A first `Host` line that is a text is what the request is routed by. -/
theorem hostKey?_of_key {line : Header} {text : List Char}
    (hkey : requestKey? headers uri = some key) (hline : headers.find? "host" = some line)
    (htext : line.text? = some text) : hostKey? text = some key.toList := by
  have hhost : requestHost? headers uri = some text := by simp [requestHost?, hline, htext]
  rw [requestKey?, hhost, Option.bind_some, Option.map_eq_some_iff] at hkey
  obtain ⟨name, hname, rfl⟩ := hkey
  rw [hname, String.toList_ofList]

theorem namesRoute_forwarded_iff (hkey : requestKey? headers uri = some key)
    (client? : Option Net.Ip) :
    (headers.forwarded client?).NamesRoute key ↔
      headers.SaysHost ∨ headers.find? "host" = none ∧ headers.NamesRoute key := by
  unfold NamesRoute SaysHost
  rw [all_forwarded_host]
  cases hline : headers.find? "host" with
  | none => simp
  | some host =>
      constructor
      · rintro ⟨line, hline', hnamed⟩
        obtain rfl := List.singleton_inj.mp hline'
        obtain ⟨text, htext, _⟩ := Option.bind_eq_some_iff.mp hnamed
        exact .inl ⟨host, text, rfl, htext⟩
      · rintro (⟨line, text, hhost, htext⟩ | ⟨hnone, _⟩)
        · obtain rfl := Option.some.inj hhost
          refine ⟨_, rfl, Option.bind_eq_some_iff.mpr ⟨text, htext, ?_⟩⟩
          exact hostKey?_of_key hkey hline htext
        · cases hnone

end Http.Headers

namespace Router

open Http (Request)

/-- A request that is with its machine was routed by its key, and the machine is told a host of
that key just if the first `Host` line is a text, or there is none and the client itself has
forwarded such a host. -/
theorem namesRoute_iff {deadline : Duration} {port : UInt16} {wakeTimeout : Duration}
    {es : List Event} {r : Router}
    (hrun : Run.after? step (start deadline port wakeTimeout) es = some r) {x : ExchangeId}
    {exchange : Exchange} (hexchange : r.exchanges[x]? = some exchange) {sent : Request}
    (hsent : exchange.phase = .forwarded sent) :
    let came := exchange.request.headers
    requestKey? came exchange.request.uri = some exchange.key ∧
      (sent.headers.NamesRoute exchange.key ↔
        came.SaysHost ∨ came.find? "host" = none ∧ came.NamesRoute exchange.key) := by
  intro came
  obtain ⟨authority, hforward⟩ := (traced_of_run hrun hexchange).sent hsent
  have hkey : requestKey? came exchange.request.uri = some exchange.key := by
    rcases keyed_of_run hrun hexchange with ⟨_, hrefused⟩ | ⟨hkey, _⟩
    · rw [hsent] at hrefused
      cases hrefused
    · exact hkey
  rw [Request.headers_of_forward? hforward]
  exact ⟨hkey, Http.Headers.namesRoute_forwarded_iff hkey exchange.client?⟩

/-- A request to the machine of the host, whose client says that it is for another one. -/
def misleading (uri : Http.Uri) (lines : Http.Headers) : Request where
  method := "GET"
  uri := uri
  version := .v11
  headers := lines ++ [.ofText "x-forwarded-host" "evil.example"]
  body := .empty

/-- The request comes and goes on to its machine. -/
def passes (request : Request) : List Event :=
  [.request 1 request none false,
    .upkeep (.manager (.described 1 (.ok [⟨"vm-1", "10.0.0.5", "Running", ["alpha.local"]⟩]))),
    .upkeep (.manager (.engage 1))]

/-- It names the host in a line. -/
def byLine : Request :=
  misleading ⟨none, none, some "/x"⟩ [.ofText "host" "alpha.local:8080"]

/-- It names the host in its target. -/
def byTarget : Request :=
  misleading ⟨some "http", some "alpha.local", some "/x"⟩ []

theorem namesRoute_iff_byLine :
    ∃ r exchange sent,
      Run.after? step (.start Manager.defaultResumeDeadline 80 (.ofSeconds 60)) (passes byLine) =
        some r ∧
      r.exchanges[0]? = some exchange ∧ exchange.phase = .forwarded sent ∧
      exchange.key = "alpha.local" ∧ sent.headers.NamesRoute "alpha.local" := by
  obtain ⟨r, exchange, sent, hrun, hexchange, hsent, hkey, hhost⟩ :
      ∃ r exchange sent,
        Run.after? step (.start Manager.defaultResumeDeadline 80 (.ofSeconds 60))
          (passes byLine) = some r ∧
        r.exchanges[0]? = some exchange ∧ exchange.phase = .forwarded sent ∧
        exchange.key = "alpha.local" ∧ exchange.request.headers.SaysHost :=
    ⟨_, _, _, rfl, rfl, rfl, rfl, _, "alpha.local:8080".toList, rfl, by decide +kernel⟩
  have hnames := (namesRoute_iff hrun hexchange hsent).2.mpr (.inl hhost)
  rw [hkey] at hnames
  exact ⟨r, exchange, sent, hrun, hexchange, hsent, hkey, hnames⟩

/-- A request that is routed by its target is passed on with the host that its client says. -/
theorem not_namesRoute_byTarget :
    ∃ r exchange sent,
      Run.after? step (.start Manager.defaultResumeDeadline 80 (.ofSeconds 60))
        (passes byTarget) = some r ∧
      r.exchanges[0]? = some exchange ∧ exchange.phase = .forwarded sent ∧
      requestKey? byTarget.headers byTarget.uri = some "alpha.local" ∧
      sent.headers.all "x-forwarded-host" = [.ofText "x-forwarded-host" "evil.example"] ∧
      ¬sent.headers.NamesRoute "alpha.local" := by
  obtain ⟨r, exchange, sent, hrun, hexchange, hsent, hlines⟩ :
      ∃ r exchange sent,
        Run.after? step (.start Manager.defaultResumeDeadline 80 (.ofSeconds 60))
          (passes byTarget) = some r ∧
        r.exchanges[0]? = some exchange ∧ exchange.phase = .forwarded sent ∧
        sent.headers.all "x-forwarded-host" = [.ofText "x-forwarded-host" "evil.example"] :=
    ⟨_, _, _, rfl, rfl, rfl, by decide +kernel⟩
  refine ⟨r, exchange, sent, hrun, hexchange, hsent, by decide +kernel, hlines, ?_⟩
  rintro ⟨line, hline, hkey⟩
  obtain rfl := List.singleton_inj.mp (hlines.symm.trans hline)
  revert hkey
  decide +kernel

end Router

end WakeRouter
