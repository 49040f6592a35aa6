import WakeRouter.Proofs.Proxy.Forward
import WakeRouter.Proofs.Router.Exchanges

/-!
# Headers for a single hop

Some headers of HTTP/1.1 are always for a single hop, and the `Connection` lines of a message
name further ones.  The router takes seven names for such, whatever the message says: of these
nothing passes but the lines of an upgrade, and everything else passes as it came.
-/

namespace WakeRouter.Http

/-- The options that a line lists: what stands between its commas, without the blanks and tabs
around it, in lowercase.  Bytes that are no text do not hide the others. -/
def Header.options (line : Header) : List String :=
  (line.value.splitOn (UInt8.ofNat ','.toNat)).map fun piece =>
    let option := (Header.trimmed { line with value := piece }).value
    String.ofList (option.map fun b => (Char.ofNat b.toNat).toLower)

namespace Headers

/-- The headers that are always for a single hop. -/
def singleHop : List String :=
  ["connection", "keep-alive", "proxy-connection", "proxy-authenticate", "proxy-authorization",
    "te", "trailer", "transfer-encoding", "upgrade"]

/-- Whether headers of that name are for a single hop: always, or because the message says so. -/
def isSingleHop (message : Headers) (name : String) : Bool :=
  singleHop.contains name || (message.all "connection").any fun line => line.options.contains name

/-- What the router passes on of the lines that came.  Of the names that it takes for those of
single hops there are the lines `upgrade` only, `added` stands in the place of all lines of its
names, and other lines are as they came. -/
def PassesOn (came upgrade added went : Headers) : Prop :=
  ∀ name, went.all name =
    if name ∈ hopByHop then upgrade.all name
    else if name ∈ added.map Header.name then added.all name
    else came.all name

/-- Nothing for a single hop is passed on, apart from an upgrade. -/
def Clean (came upgrade went : Headers) : Prop :=
  ∀ line ∈ went, came.isSingleHop line.name → line ∈ upgrade

/-- The router knows the names of all headers for a single hop that there are. -/
def Foreseen (came added : Headers) : Prop :=
  ∀ line ∈ came ++ added, came.isSingleHop line.name → line.name ∈ hopByHop

variable {came upgrade added went : Headers} {line : Header}

/-- A header whose name the router does not know goes out under its name. -/
theorem PassesOn.exists_of_unknown (hpasses : PassesOn came upgrade added went)
    (hline : line ∈ came ++ added) (hunknown : line.name ∉ hopByHop) :
    ∃ other ∈ went, other.name = line.name := by
  have hall := hpasses line.name
  rw [if_neg hunknown] at hall
  split at hall
  next hadded =>
    obtain ⟨other, hother, hname⟩ := List.mem_map.mp hadded
    have hmem : other ∈ went.all line.name := hall ▸ mem_all.mpr ⟨hother, hname⟩
    exact ⟨other, mem_all.mp hmem⟩
  next hadded =>
    have hcame : line ∈ came :=
      (List.mem_append.mp hline).resolve_right fun hmem => hadded (List.mem_map_of_mem hmem)
    have hmem : line ∈ went.all line.name := hall ▸ mem_all_self.mpr hcame
    exact ⟨line, mem_all.mp hmem⟩

theorem PassesOn.mem_of_mem (hpasses : PassesOn came upgrade added went) (hline : line ∈ went) :
    line ∈ upgrade ∨ line ∈ came ++ added := by
  have hmem := mem_all_self.mpr hline
  rw [hpasses line.name] at hmem
  split at hmem
  next => exact .inl (mem_all_self.mp hmem)
  next =>
    split at hmem
    next => exact .inr (List.mem_append_right _ (mem_all_self.mp hmem))
    next => exact .inr (List.mem_append_left _ (mem_all_self.mp hmem))

theorem PassesOn.upgrade_of_known (hpasses : PassesOn came upgrade added went)
    (hline : line ∈ went) (hknown : line.name ∈ hopByHop) : line ∈ upgrade := by
  have hmem := mem_all_self.mpr hline
  rw [hpasses line.name, if_pos hknown] at hmem
  exact mem_all_self.mp hmem

theorem PassesOn.clean_iff (hpasses : PassesOn came upgrade added went)
    (hupgrade : ∀ name ∈ upgrade.map Header.name, name ∈ hopByHop) :
    Clean came upgrade went ↔ Foreseen came added := by
  constructor
  · intro hclean line hline hsingle
    by_cases hknown : line.name ∈ hopByHop
    · exact hknown
    · obtain ⟨other, hother, hname⟩ := hpasses.exists_of_unknown hline hknown
      have hmem := hclean other hother (by rwa [hname])
      rw [← hname]
      exact hupgrade other.name (List.mem_map_of_mem hmem)
  · intro hforeseen line hline hsingle
    rcases hpasses.mem_of_mem hline with hmem | hmem
    · exact hmem
    · exact hpasses.upgrade_of_known hline (hforeseen line hmem hsingle)

end Headers

/-! ## Responses -/

namespace Response

/-- The length of the body, which the router adds to a response that lacks it. -/
def lengthLines (r : Response) (method : String) : Headers :=
  if method == "CONNECT" && r.isSuccess then []
  else if r.body.sized && !r.headers.has "content-length" then
    [.contentLength r.body.bytes.length]
  else []

variable {r : Response} {method : String}

theorem headers_routed (method : String) (r : Response) :
    (r.routed method).headers = r.headers ++ r.lengthLines method := by
  have hname : ∀ n, (Header.contentLength n).name = "content-length" := fun _ => rfl
  unfold routed lengthLines Headers.setDefault
  rw [hname]
  cases method == "CONNECT" && r.isSuccess <;> cases r.body.sized <;>
    cases r.headers.has "content-length" <;> simp

theorem all_of_mem_lengthLines {name : String}
    (hname : name ∈ (r.lengthLines method).map Header.name) :
    name ∉ Headers.hopByHop ∧ r.headers.all name = [] := by
  unfold lengthLines at hname
  split at hname
  next => simp at hname
  next =>
    split at hname
    next hlacking =>
      obtain rfl : name = "content-length" := List.mem_singleton.mp hname
      refine ⟨by decide, ?_⟩
      simp only [Headers.has, Bool.and_eq_true, Bool.not_eq_true', List.any_eq_false] at hlacking
      exact List.filter_eq_nil_iff.mpr hlacking.2
    next => simp at hname

theorem passesOn_routed (upstream : Response) (method : String) :
    let stripped := { upstream with headers := upstream.headers.stripHopByHop }
    upstream.headers.PassesOn [] (stripped.lengthLines method)
      (stripped.routed method).headers := by
  intro stripped name
  have hstripped : stripped.headers.all name =
      if name ∈ Headers.hopByHop then [] else upstream.headers.all name :=
    upstream.headers.all_stripHopByHop name
  rw [headers_routed, Headers.all_append]
  by_cases hadded : name ∈ (stripped.lengthLines method).map Header.name
  · obtain ⟨hunknown, hnone⟩ := all_of_mem_lengthLines hadded
    simp [hnone, hunknown, hadded]
  · rw [hstripped, Headers.all_eq_nil_iff.mpr hadded, if_neg hadded, List.append_nil]
    rfl

end Response

end WakeRouter.Http

namespace WakeRouter.Router

open Http (Request Response)

/-- Each request that is with a machine, and each response that a client has from one, carries
what `PassesOn` says; and it carries nothing for a single hop, apart from an upgrade, just if the
names that the router knows cover all such headers of the message. -/
theorem clean_iff_foreseen {deadline : Duration} {port : UInt16} {wakeTimeout : Duration}
    {es : List Event} {r : Router}
    (hrun : Run.after? step (start deadline port wakeTimeout) es = some r) {x : ExchangeId}
    {exchange : Exchange} (hexchange : r.exchanges[x]? = some exchange) :
    (∀ sent : Request, exchange.phase = .forwarded sent →
      let came := exchange.request.headers
      let added := came.ownLines exchange.client?
      came.PassesOn came.upgradeLines added sent.headers ∧
        (came.Clean came.upgradeLines sent.headers ↔ came.Foreseen added)) ∧
    (∀ response : Response, exchange.phase = .answered response →
      ∃ upstream got : Response, ∃ t ∈ Run.trail step (start deadline port wakeTimeout) es,
        t.event = .replied x (.response upstream) ∧ upstream.status ≠ 101 ∧
          exchange.response? = some got ∧
        let came := upstream.headers
        let added := response.lengthLines exchange.request.method
        came.PassesOn [] added got.headers ∧
          (came.Clean [] got.headers ↔ came.Foreseen added)) := by
  have htraced := traced_of_run hrun hexchange
  constructor
  · intro sent hsent came added
    obtain ⟨authority, hforward⟩ := htraced.sent hsent
    have hpasses : came.PassesOn came.upgradeLines added sent.headers := by
      rw [Request.headers_of_forward? hforward]
      exact came.all_forwarded exchange.client?
    exact ⟨hpasses, hpasses.clean_iff came.mem_hopByHop_of_upgrade⟩
  · intro response hanswered
    obtain ⟨upstream, ⟨t, ht, hevent⟩, hstatus, rfl⟩ := htraced.answered hanswered
    have hpasses := upstream.passesOn_routed exchange.request.method
    refine ⟨upstream, _, t, ht, hevent, hstatus, ?_, hpasses, hpasses.clean_iff (by simp)⟩
    simp [Exchange.response?, hanswered]

/-- A request with those lines behind that of its host. -/
def hopRequest (lines : Http.Headers) : Request where
  method := "GET"
  uri := ⟨none, none, some "/"⟩
  version := .v11
  headers := .ofText "host" "alpha" :: lines
  body := .empty

def hopClient : Net.Ip := .v4 ⟨192, 0, 2, 7⟩

/-- A request with those lines comes and goes on to its machine. -/
def hops (lines : Http.Headers) : List Event :=
  [.request 1 (hopRequest lines) (some hopClient) false,
    .upkeep (.manager (.described 1 (.ok [⟨"vm-1", "10.0.0.5", "Running", ["alpha"]⟩]))),
    .upkeep (.manager (.engage 1))]

/-- The machine answers the request with those lines. -/
def hopBack (lines : Http.Headers) : Event :=
  .replied 0 (.response ⟨200, .v11, lines, .empty⟩)

/-- Lines for a single hop, whose names the router knows. -/
def knownLines : Http.Headers :=
  [.ofText "connection" "TE , close", .ofText "te" "trailers"]

/-- Lines for a single hop, whose names the router does not know. -/
def unknownLines : Http.Headers :=
  [.ofText "connection" "close", .ofText "connection" "Keep-Alive, X-Secret",
    .ofText "keep-alive" "timeout=5", .ofText "x-secret" "1"]

theorem clean_iff_foreseen_knownLines :
    (∃ r exchange sent,
      Run.after? step (.start Manager.defaultResumeDeadline 80 (.ofSeconds 60))
        (hops knownLines) = some r ∧
      r.exchanges[0]? = some exchange ∧ exchange.phase = .forwarded sent ∧
      exchange.request.headers.Clean exchange.request.headers.upgradeLines sent.headers) ∧
    ∃ (r : Router) (exchange : Exchange) (upstream got : Response),
      Run.after? step (.start Manager.defaultResumeDeadline 80 (.ofSeconds 60))
        (hops knownLines ++ [hopBack knownLines]) = some r ∧
      r.exchanges[0]? = some exchange ∧ exchange.response? = some got ∧
      upstream.headers = knownLines ∧ upstream.headers.Clean [] got.headers := by
  constructor
  · obtain ⟨r, exchange, sent, hrun, hexchange, hsent, hforeseen⟩ :
        ∃ r exchange sent,
          Run.after? step (.start Manager.defaultResumeDeadline 80 (.ofSeconds 60))
            (hops knownLines) = some r ∧
          r.exchanges[0]? = some exchange ∧ exchange.phase = .forwarded sent ∧
          exchange.request.headers.Foreseen (exchange.request.headers.ownLines exchange.client?) :=
      ⟨_, _, _, rfl, rfl, rfl, by unfold Http.Headers.Foreseen; decide +kernel⟩
    have hclean := ((clean_iff_foreseen hrun hexchange).1 sent hsent).2.mpr hforeseen
    exact ⟨r, exchange, sent, hrun, hexchange, hsent, hclean⟩
  · obtain ⟨r, exchange, response, hrun, hexchange, hanswered, hlines⟩ :
        ∃ r exchange response,
          Run.after? step (.start Manager.defaultResumeDeadline 80 (.ofSeconds 60))
            (hops knownLines ++ [hopBack knownLines]) = some r ∧
          r.exchanges[0]? = some exchange ∧ exchange.phase = .answered response ∧
          Http.Headers.Foreseen knownLines
            (response.lengthLines exchange.request.method) :=
      ⟨_, _, _, rfl, rfl, rfl, by unfold Http.Headers.Foreseen; decide +kernel⟩
    obtain ⟨upstream, got, t, ht, hevent, -, hgot, -, hiff⟩ :=
      (clean_iff_foreseen hrun hexchange).2 response hanswered
    have hupstream : upstream.headers = knownLines := by
      have hmem : t.event ∈ hops knownLines ++ [hopBack knownLines] :=
        List.mem_map_of_mem (f := fun t => t.event) ht
      rw [hevent] at hmem
      obtain rfl : upstream = ⟨200, .v11, knownLines, .empty⟩ := by
        simpa [hops, hopBack] using hmem
      rfl
    refine ⟨r, exchange, upstream, got, hrun, hexchange, hgot, hupstream, hiff.mpr ?_⟩
    rw [hupstream]
    exact hlines

/-- Neither the lines that are always for a single hop nor those that the message names are
kept back, on the way to the machine and on the way back. -/
theorem not_clean_unknownLines :
    (∃ r exchange sent,
      Run.after? step (.start Manager.defaultResumeDeadline 80 (.ofSeconds 60))
        (hops unknownLines) = some r ∧
      r.exchanges[0]? = some exchange ∧ exchange.phase = .forwarded sent ∧
      ¬exchange.request.headers.Clean exchange.request.headers.upgradeLines sent.headers ∧
      ∀ line ∈ [.ofText "keep-alive" "timeout=5", .ofText "x-secret" "1"], line ∈ sent.headers) ∧
    ∃ r exchange got,
      Run.after? step (.start Manager.defaultResumeDeadline 80 (.ofSeconds 60))
        (hops unknownLines ++ [hopBack unknownLines]) = some r ∧
      r.exchanges[0]? = some exchange ∧ exchange.response? = some got ∧ got.status = 200 ∧
      ¬Http.Headers.Clean unknownLines [] got.headers ∧
      ∀ line ∈ [.ofText "keep-alive" "timeout=5", .ofText "x-secret" "1"], line ∈ got.headers := by
  constructor
  · refine ⟨_, _, _, rfl, rfl, rfl, fun hclean => ?_, by decide +kernel⟩
    have := hclean (.ofText "keep-alive" "timeout=5") (by decide +kernel) (by decide +kernel)
    revert this
    decide +kernel
  · refine ⟨_, _, _, rfl, rfl, rfl, rfl, fun hclean => ?_, by decide +kernel⟩
    have := hclean (.ofText "keep-alive" "timeout=5") (by decide +kernel) (by decide +kernel)
    revert this
    decide +kernel

end WakeRouter.Router
