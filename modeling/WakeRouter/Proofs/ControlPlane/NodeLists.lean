import WakeRouter.ControlPlane.Client
import WakeRouter.Proofs.ControlPlane.Calls
import WakeRouter.Proofs.Vm.NodeList

/-!
# The machines that a call lists

A call for the machines of a key is the call for all machines; of the list in the body, those are
kept that the key is a name or a tag of.
-/

namespace WakeRouter

namespace Client

variable {c : Client} {peer : ControlPeer} {body : Bytes} {key : String} {found : List Node}

/-- A call for machines gets through to the peer, and that is the body of what comes back. -/
def Receives (c : Client) (peer : ControlPeer) (body : Bytes) : Prop :=
  ∃ request, c.request .list = .ok request ∧
    (∀ address authority name base, c.endpoint = .https address authority name base →
      Net.ServerName.isValid name.toList) ∧
    (c.exchange peer request).2 = .ok body

/-- The machines of the key. -/
def matching (key : String) (nodes : List Node) : List Node :=
  nodes.filter fun node => node.hostname = key ∨ key ∈ node.tags

theorem filter_serves (key : String) (nodes : List Node) :
    nodes.filter (·.serves key) = matching key nodes := by
  apply List.filter_congr
  intro node _
  rw [Bool.eq_iff_iff]
  simp [Node.serves]

theorem call_describe (hbody : c.Receives peer body) (key : String) :
    (c.call peer (.describe key)).2 = match NodeList.decode? body with
      | some nodes => .ok (.nodes (matching key nodes))
      | none => .error (.decode "not a list of nodes") := by
  obtain ⟨request, hrequest, hname, hresult⟩ := hbody
  have hrequest' : c.request (.describe key) = .ok request := hrequest
  unfold call
  rw [hrequest']
  dsimp only
  split
  next hbad =>
    split at hbad
    next hendpoint => simp [hname _ _ _ _ hendpoint] at hbad
    next => cases hbad
  next =>
    rw [hresult]
    simp only [bind, Except.bind, filter_serves]
    cases NodeList.decode? body <;> rfl

theorem exists_receives (hfound : (c.call peer (.describe key)).2 = .ok (.nodes found)) :
    ∃ body, c.Receives peer body := by
  unfold call at hfound
  split at hfound
  next => cases hfound
  next request hrequest =>
    dsimp only at hfound
    split at hfound
    next => cases hfound
    next hname =>
      cases hresult : (c.exchange peer request).2 with
      | error =>
          rw [hresult] at hfound
          cases hfound
      | ok body =>
          refine ⟨body, request, hrequest, ?_, hresult⟩
          intro address authority name base hendpoint
          rw [hendpoint] at hname
          simpa using hname

/-- A call for a key lists the machines in the body that the key is a name or a tag of. -/
theorem call_describe_eq_ok_iff : (c.call peer (.describe key)).2 = .ok (.nodes found) ↔
    ∃ body nodes, c.Receives peer body ∧ NodeList.decode? body = some nodes ∧
      found = matching key nodes := by
  constructor
  · intro hfound
    obtain ⟨body, hbody⟩ := exists_receives hfound
    rw [call_describe hbody] at hfound
    split at hfound
    next nodes hdecode =>
      cases hfound
      exact ⟨body, nodes, hbody, hdecode, rfl⟩
    next => cases hfound
  · rintro ⟨body, nodes, hbody, hdecode, rfl⟩
    rw [call_describe hbody, hdecode]

end Client

namespace NodeList

/-- What is written for a list of machines is read as that list, and so is every other form of
it: the bodies that are read are those that hold trees of the machines, and neither blanks nor
moved, added or left out fields make a difference.  Objects with a field twice or with one missing
are refused, and so is a text that goes on behind the list.  Of what is read, a call for a key
keeps the machines that the key is a name or a tag of. -/
theorem decode?_faithful :
    (∀ nodes, decode? (encode nodes) = some nodes) ∧
    (∀ body nodes, decode? body = some nodes ↔
      ∃ items, Json.Holds body (.array items) ∧ List.Forall₂ Node.Presents items nodes) ∧
    (∀ body body' value value', Json.Holds body value → Json.Holds body' value' →
      Alike value value' → decode? body = decode? body') ∧
    (∀ body items fields, Json.Holds body (.array items) → .object fields ∈ items →
      (∀ name ∈ Node.fieldNames, 2 ≤ (Node.valuesOf fields name).length →
        decode? body = none) ∧
      ∀ name ∈ Node.requiredNames, Node.valuesOf fields name = [] → decode? body = none) ∧
    (∀ body s items rest, Json.Gap (Text.decodeBytes body) s →
      Json.Spells s (.array items) rest → (∃ c ∈ rest, Json.Reader.isSpace c = false) →
      decode? body = none) ∧
    ∀ (c : Client) (peer : ControlPeer) (key : String),
      (∀ body, c.Receives peer body → (c.call peer (.describe key)).2 =
        match decode? body with
        | some nodes =>
          .ok (.nodes (nodes.filter fun node => node.hostname = key ∨ key ∈ node.tags))
        | none => .error (.decode "not a list of nodes")) ∧
      ∀ found, (c.call peer (.describe key)).2 = .ok (.nodes found) → ∃ body nodes,
        c.Receives peer body ∧ decode? body = some nodes ∧
        found = nodes.filter fun node => node.hostname = key ∨ key ∈ node.tags := by
  refine ⟨decode?_encode, fun _ _ => decode?_eq_some_iff, fun _ _ _ _ => decode?_of_alike,
    fun body items fields hbody hobject => ⟨fun _ hname => decode?_of_repeated hbody hobject hname,
      fun _ hname => decode?_of_missing hbody hobject hname⟩, ?_, fun c peer key =>
    ⟨fun _ hbody => Client.call_describe hbody key, fun _ => Client.call_describe_eq_ok_iff.mp⟩⟩
  rintro body s items rest hgap hs ⟨c, hc, hblank⟩
  exact decode?_of_trailing hgap hs hc hblank

open Json (Writer.array Writer.object Writer.string)

/-- A machine without tags. -/
def untaggedNode : Node := ⟨"vm-1", "10.0.0.5", "Paused", []⟩

/-- The fields of the machine in another order, with one more and without the tags. -/
def movedFields : Node.Fields :=
  [(some "zone", .object [(some "a", .array [])]), (some "status", Node.textValue "Paused"),
    (some "ip", Node.textValue "10.0.0.5"), (some "hostname", Node.textValue "vm-1")]

def movedBody : Bytes :=
  Text.toUtf8 (Writer.array [Writer.object [("zone", Writer.object [("a", Writer.array [])]),
    ("status", Writer.string "Paused"), ("ip", Writer.string "10.0.0.5"),
    ("hostname", Writer.string "vm-1")]])

def listing : Http.Request where
  method := "GET"
  uri := ⟨none, none, some "/hostgroup/apps/nodes"⟩
  version := .v11
  headers := Client.localClient.headerLines.map fun (name, value) => .ofText name value
  body := .empty

theorem holds_movedBody : Json.Holds movedBody (.array [.object movedFields]) := by
  apply Json.holds_of_writes
  refine Json.writes_array (.cons (Json.writes_object ?_) .nil)
  exact .cons ⟨rfl, Json.writes_object (.cons ⟨rfl, Json.writes_array .nil⟩ .nil)⟩
    (.cons ⟨rfl, Json.writes_string _⟩ (.cons ⟨rfl, Json.writes_string _⟩
      (.cons ⟨rfl, Json.writes_string _⟩ .nil)))

theorem alike_movedFields : Node.Alike (.object movedFields) untaggedNode.tree := by
  let kept : Node.Fields := [(some "hostname", Node.textValue "vm-1"),
    (some "ip", Node.textValue "10.0.0.5"), (some "status", Node.textValue "Paused")]
  have hadded : Node.Recast kept.reverse movedFields := .added (by decide) _
  have hmoved : Node.Recast kept.reverse kept := .moved (List.reverse_perm kept)
  have huntagged : Node.Recast ((some "tags", .array []) :: kept) kept := .untagged (by simp [kept])
  have hlast : Node.Recast ((some "tags", .array []) :: kept)
      (kept ++ [(some "tags", .array [])]) :=
    .moved (List.perm_append_singleton _ kept).symm
  refine .object (.trans _ kept.reverse _ (.symm _ _ (.rel _ _ hadded)) ?_)
  refine .trans _ kept _ (.rel _ _ hmoved) ?_
  exact .trans _ _ _ (.symm _ _ (.rel _ _ huntagged)) (.rel _ _ hlast)

theorem receives_movedBody :
    Client.localClient.Receives ⟨.answers 200 [] movedBody, none⟩ movedBody := by
  refine ⟨listing, rfl, by simp [Client.localClient], ?_⟩
  have hbody : (Client.localClient.exchange ⟨.answers 200 [] movedBody, none⟩
      listing).2.toOption = some movedBody := by decide +kernel
  generalize (Client.localClient.exchange ⟨.answers 200 [] movedBody, none⟩ listing).2 = result
    at hbody
  cases result with
  | error => cases hbody
  | ok => exact congrArg Except.ok (Option.some.inj hbody)

/-- The list with the moved fields is read as the one that is written, and not at all when it goes
on behind its end. -/
theorem decode?_faithful_movedFields :
    decode? (encode [untaggedNode]) = some [untaggedNode] ∧
    decode? movedBody = decode? (encode [untaggedNode]) ∧
    (∃ items, Json.Holds movedBody (.array items) ∧
      List.Forall₂ Node.Presents items [untaggedNode]) ∧
    (Client.localClient.call ⟨.answers 200 [] movedBody, none⟩ (.describe "vm-1")).2 =
      .ok (.nodes [untaggedNode]) ∧
    (Client.localClient.call ⟨.answers 200 [] movedBody, none⟩ (.describe "vm-2")).2 =
      .ok (.nodes []) ∧
    decode? (Text.toUtf8 "[]x".toList) = none ∧
    decode? (Text.toUtf8 (Writer.array [Writer.object
      [("tags", Writer.array []), ("tags", Writer.array [])]])) = none := by
  obtain ⟨hwritten, hread, hforms, hobjects, htrailing, hcalls⟩ := decode?_faithful
  have hmoved : decode? movedBody = decode? (encode [untaggedNode]) :=
    hforms _ _ _ _ holds_movedBody (holds_encode [untaggedNode])
      (.items (.cons alike_movedFields .nil))
  have hdecode := hmoved.trans (hwritten [untaggedNode])
  have hdescribe := fun key => (hcalls Client.localClient _ key).1 _ receives_movedBody
  refine ⟨hwritten _, hmoved, (hread _ _).mp hdecode, ?_, ?_, ?_, ?_⟩
  · rw [hdescribe, hdecode]
    rfl
  · rw [hdescribe, hdecode]
    rfl
  · have htext : Text.decodeBytes (Text.toUtf8 "[]x".toList) = [some '[', some ']', some 'x'] :=
      Text.decodeBytes_toUtf8 _
    exact htrailing _ _ [] [some 'x'] (htext ▸ .nothing) (.emptyArray .nothing)
      ⟨some 'x', List.mem_singleton_self _, rfl⟩
  · have hrepeated : Json.Holds (Text.toUtf8 (Writer.array [Writer.object
        [("tags", Writer.array []), ("tags", Writer.array [])]]))
        (.array [.object [(some "tags", .array []), (some "tags", .array [])]]) := by
      apply Json.holds_of_writes
      refine Json.writes_array (.cons (Json.writes_object ?_) .nil)
      exact .cons ⟨rfl, Json.writes_array .nil⟩ (.cons ⟨rfl, Json.writes_array .nil⟩ .nil)
    exact (hobjects _ _ _ hrepeated (List.mem_singleton_self _)).1 "tags" (by decide) (by decide)

end NodeList

end WakeRouter
