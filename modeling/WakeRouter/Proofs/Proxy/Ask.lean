import WakeRouter.Proofs.Router.Questions

/-!
# The domain that a question is about

The handler takes one `domain` parameter from the query, whose name and value may be written with
escapes.  A question that gives none, or an empty one, is refused; so is one that gives several,
before the handler sees it.
-/

namespace WakeRouter.Ask

/-! ## The domain parameter -/

/-- The values of the query's fields with the name `domain`. -/
def domainFields (query : List Char) : List String :=
  ((Text.readForm query).filter fun field => field.1 == "domain".toList).map fun field =>
    String.ofList field.2

/-- The question reaches its handler, with that value of the `domain` parameter. -/
structure Carries (method : String) (uri : Http.Uri) (value? : Option String) : Prop where
  method_eq : method = "GET" ∨ method = "HEAD"
  target : ∃ rest, uri.pathAndQuery? = some (String.ofList (path ++ rest)) ∧
    (rest = [] ∨ rest.head? = some '?') ∧ domainFields (rest.drop 1) = value?.toList

variable {method domain : String} {uri : Http.Uri} {value? : Option String}

theorem domain?_eq (query : List Char) :
    domain? query =
      match domainFields query with
      | [] => .error .missingDomain
      | [domain] => if domain = "" then .error .missingDomain else .ok domain
      | _ => .error .repeatedDomain := by
  unfold domain? domainFields
  generalize (Text.readForm query).filter _ = fields
  match fields with
  | [] => rfl
  | [(name, value)] => simp [String.ofList_eq_empty_iff]
  | _ :: _ :: _ => rfl

theorem question?_of_target {rest : List Char} (hmethod : method = "GET" ∨ method = "HEAD")
    (huri : uri.pathAndQuery? = some (String.ofList (path ++ rest)))
    (hrest : rest = [] ∨ rest.head? = some '?') :
    question? method uri = domain? (rest.drop 1) := by
  have htake : (path ++ rest).takeWhile (· != '?') = path := by
    rcases hrest with rfl | hhead
    · rfl
    · obtain ⟨query, rfl⟩ := List.head?_eq_some_iff.mp hhead
      exact Text.takeWhile_append_cons rfl path query
  have hdrop : (path ++ rest).dropWhile (· != '?') = rest := by
    have hsplit := List.takeWhile_append_dropWhile (p := (· != '?')) (l := path ++ rest)
    rw [htake] at hsplit
    exact List.append_cancel_left hsplit
  have hget : (method != "GET" && method != "HEAD") = false := by
    rcases hmethod with rfl | rfl <;> rfl
  have hhead : (path ++ rest).head? = some '/' := rfl
  simp [question?, huri, htake, hdrop, hget, hhead]

/-- A question without a domain, or with an empty one, is refused. -/
theorem Carries.refused (hcarries : Carries method uri value?)
    (hmissing : value? = none ∨ value? = some "") :
    question? method uri = .error .missingDomain := by
  obtain ⟨hmethod, rest, huri, hrest, hfields⟩ := hcarries
  rw [question?_of_target hmethod huri hrest, domain?_eq, hfields]
  rcases hmissing with rfl | rfl <;> rfl

theorem Carries.asks (hcarries : Carries method uri (some domain)) (hdomain : domain ≠ "") :
    question? method uri = .ok domain := by
  obtain ⟨hmethod, rest, huri, hrest, hfields⟩ := hcarries
  rw [question?_of_target hmethod huri hrest, domain?_eq, hfields]
  exact if_neg hdomain

/-! ## What the client is told -/

theorem status?_lookupFailed (method : String) :
    (⟨method, .answered .lookupFailed⟩ : Ask).status? = some 500 := by
  simp [status?_of_answered, AskVerdict.response, Http.Response.status_routed,
    Http.Response.ofText]

theorem status?_missingDomain (method : String) :
    (⟨method, .answered .missingDomain⟩ : Ask).status? = some 400 := by
  simp [status?_of_answered, AskVerdict.response, Http.Response.status_routed,
    Http.Response.ofText]

theorem status?_ofRecord (method : String) (s : Snapshot) :
    (⟨method, .answered (.ofAnswer (.record s))⟩ : Ask).status? =
      some (if s.state = .notFound then 404 else 200) := by
  rw [status?_of_answered rfl, AskVerdict.ofAnswer]
  split <;> simp [AskVerdict.response, Http.Response.status_routed, Http.Response.ofText]

theorem status?_looking (method : String) (c : CallerId) (since : Instant) :
    (⟨method, .looking c since⟩ : Ask).status? = none := rfl

theorem status?_dropped (method : String) : (⟨method, .dropped⟩ : Ask).status? = none := rfl

end WakeRouter.Ask
