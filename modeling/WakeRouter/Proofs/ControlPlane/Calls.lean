import WakeRouter.ControlPlane.Client
import WakeRouter.ControlPlane.Fleet
import WakeRouter.Proofs.Http.Targets

/-!
# Which machine a call names

A call to resume or to pause a machine says which machine, and which of the two, by its target
alone.  The name stands in the path as the control plane reports it, so a `#` in it ends the
target there: what tells two calls apart has to stand before it.  Every other character of a name
is harmless, for the operation stands behind the last slash.
-/

namespace WakeRouter

open Http.Uri (behindAuthority exists_behindAuthority_eq exists_eq_append_behindAuthority
  exists_eq_append_hash head?_upToHash_append pathAndQuery?_of_read rooted rooted_inj upToHash
  upToHash_append_hash upToHash_append_of_not_mem upToHash_of_not_mem)

namespace PowerCall

/-- The call to a control plane that makes the change to a machine. -/
def control : PowerCall → String → ControlCall
  | .resume, hostname => .resume hostname
  | .pause, hostname => .pause hostname

theorem slash_not_mem_word (call : PowerCall) : '/' ∉ call.word.toList := by
  cases call <;> decide

theorem hash_not_mem_word (call : PowerCall) : '#' ∉ call.word.toList := by
  cases call <;> decide

theorem word_inj {call call' : PowerCall} :
    call.word.toList = call'.word.toList ↔ call = call' := by
  cases call <;> cases call' <;> decide

end PowerCall

namespace Client

variable {c : Client} {call call' : PowerCall} {hostname hostname' : String}
  {request request' : Http.Request}

/-! ## Requests and their targets -/

/-- A path begins with one slash. -/
theorem exists_path_eq (c : Client) (call : ControlCall) :
    ∃ first rest, (c.path call).toList = '/' :: first :: rest ∧ first ≠ '/' := by
  cases call <;> simp [path, toString]

theorem head?_path (c : Client) (call : ControlCall) :
    (c.path call).toList.head? = some '/' := by
  obtain ⟨first, rest, hpath, -⟩ := c.exists_path_eq call
  rw [hpath]
  rfl

theorem slash_mem_path (c : Client) (call : ControlCall) : '/' ∈ (c.path call).toList :=
  List.mem_of_mem_head? (head?_path c call)

theorem read_of_request {call : ControlCall} (hrequest : c.request call = .ok request) :
    Http.Uri.read (c.basePath ++ c.path call).toList = .ok request.uri ∧
      request.method = method call := by
  unfold Client.request at hrequest
  cases hread : Http.Uri.read (c.basePath ++ c.path call).toList with
  | error fault =>
      rw [hread] at hrequest
      cases hrequest
  | ok uri =>
      have hmapped (f : Http.UriFault → ControlError) :
          Except.mapError f (.ok uri) = .ok uri := rfl
      simp only [hread, hmapped, bind, Except.bind] at hrequest
      split at hrequest
      · cases hrequest
      · cases hrequest
        exact ⟨rfl, rfl⟩

theorem target_send {call : ControlCall} (hrequest : c.request call = .ok request) :
    (request.send c.hostLine).target =
      String.ofList (rooted (upToHash (behindAuthority (c.basePath ++ c.path call).toList))) := by
  obtain ⟨hread, hmethod⟩ := read_of_request hrequest
  have hslash : '/' ∈ (c.basePath ++ c.path call).toList := by
    rw [String.toList_append]
    exact List.mem_append_right _ (slash_mem_path c call)
  have hconnect : request.isConnect = false := by
    rw [Http.Request.isConnect, hmethod]
    cases call <;> rfl
  simp [Http.Request.send, hconnect, pathAndQuery?_of_read hslash hread]

/-- A base path that is empty or begins with a slash is kept in front of every path. -/
theorem target_send_of_base {call : ControlCall}
    (hbase : c.basePath = "" ∨ c.basePath.toList.head? = some '/')
    (hrequest : c.request call = .ok request) :
    (request.send c.hostLine).target =
      String.ofList (upToHash (c.basePath ++ c.path call).toList) := by
  have hhead : (c.basePath ++ c.path call).toList.head? = some '/' := by
    rw [String.toList_append]
    rcases hbase with hbase | hbase
    · rw [hbase]
      exact head?_path c call
    · rw [List.head?_append, hbase]
      rfl
  obtain ⟨rest, hrest⟩ := List.head?_eq_some_iff.mp hhead
  rw [target_send hrequest, hrest]
  rfl

/-- What arrives at the peer is the request, if anything does. -/
theorem exists_request_of_arrived {peer : ControlPeer} {call : ControlCall}
    {received : Http.Received} (harrived : received ∈ (c.call peer call).1) :
    ∃ request, c.request call = .ok request ∧ received = request.send c.hostLine := by
  have hexchange : ∀ request, received ∈ (c.exchange peer request).1 →
      received = request.send c.hostLine := by
    intro request harrived
    unfold exchange at harrived
    split at harrived
    · cases harrived
    split at harrived
    · split at harrived
      · exact List.mem_singleton.mp harrived
      · cases harrived
    · split at harrived
      · cases harrived
      · cases harrived
    · cases harrived
    · exact List.mem_singleton.mp harrived
  unfold Client.call at harrived
  split at harrived
  next => cases harrived
  next request hrequest =>
    simp only at harrived
    split at harrived
    · cases harrived
    · exact ⟨request, hrequest, hexchange request harrived⟩

/-! ## Calls that name a machine -/

theorem toList_path_control (c : Client) (call : PowerCall) (hostname : String) :
    (c.path (call.control hostname)).toList =
      '/' :: ("vm".toList ++ '/' :: (hostname.toList ++ '/' :: call.word.toList)) := by
  cases call <;> simp [path, PowerCall.control, PowerCall.word, toString]

/-- Up to the machine's name all these paths are the same. -/
theorem toList_basePath_path (c : Client) (call : PowerCall) (hostname : String) :
    (c.basePath ++ c.path (call.control hostname)).toList = c.basePath.toList ++
      '/' :: ("vm".toList ++ '/' :: (hostname.toList ++ '/' :: call.word.toList)) := by
  rw [String.toList_append, toList_path_control]

/-- Two targets are equal if the paths are up to their first `#`, whatever scheme and authority
the base path begins with. -/
theorem target_eq_iff_upToHash_eq (hrequest : c.request (call.control hostname) = .ok request)
    (hrequest' : c.request (call'.control hostname') = .ok request') :
    (request.send c.hostLine).target = (request'.send c.hostLine).target ↔
      upToHash (c.basePath ++ c.path (call.control hostname)).toList =
        upToHash (c.basePath ++ c.path (call'.control hostname')).toList := by
  obtain ⟨kept, hkept⟩ := exists_behindAuthority_eq c.basePath.toList
    (show 2 ≤ "vm".toList.length by decide)
  have hslash : '/' ∈ (c.basePath ++ c.path (call.control hostname)).toList := by
    rw [String.toList_append]
    exact List.mem_append_right _ (slash_mem_path c _)
  obtain ⟨front, hfront, hcut⟩ := exists_eq_append_behindAuthority hslash
    (read_of_request hrequest).1
  rw [target_send hrequest, target_send hrequest', String.ofList_inj]
  rw [toList_basePath_path] at hcut ⊢
  rw [toList_basePath_path, hkept, hkept, rooted_inj (head?_upToHash_append ..)]
  -- The same text stands in front of both machines' names.
  have hsame : front ++ kept = c.basePath.toList ++ '/' :: "vm".toList := by
    rw [hkept, ← List.append_assoc, ← List.cons_append, ← List.append_assoc] at hcut
    exact (List.append_cancel_right hcut).symm
  have hall : ∀ u, c.basePath.toList ++ '/' :: ("vm".toList ++ '/' :: u) =
      front ++ (kept ++ '/' :: u) := by
    intro u
    rw [← List.append_assoc front, hsame, List.append_assoc, List.cons_append]
  rw [hall, hall, upToHash_append_of_not_mem hfront, upToHash_append_of_not_mem hfront,
    List.append_cancel_left_eq]

/-! ## What the targets keep apart -/

/-- Two calls whose difference, if there is one, stands behind a `#`. -/
inductive Blurred (base : String) (call call' : PowerCall) (hostname hostname' : String) : Prop
  | base (hbase : '#' ∈ base.toList)
  /-- Nothing is left of the operations. -/
  | names {front rest rest' : List Char} (hfront : '#' ∉ front)
    (hname : hostname.toList = front ++ '#' :: rest)
    (hname' : hostname'.toList = front ++ '#' :: rest')
  /-- The first name spells the path of the other call. -/
  | first {rest : List Char} (hplain : '#' ∉ hostname'.toList)
    (hname : hostname.toList = hostname'.toList ++ '/' :: (call'.word.toList ++ '#' :: rest))
  | second {rest : List Char} (hplain : '#' ∉ hostname.toList)
    (hname : hostname'.toList = hostname.toList ++ '/' :: (call.word.toList ++ '#' :: rest))

theorem upToHash_call {hostname : List Char} (hplain : '#' ∉ hostname) (call : PowerCall) :
    upToHash (hostname ++ '/' :: call.word.toList) = hostname ++ '/' :: call.word.toList := by
  apply upToHash_of_not_mem
  simp [hplain, call.hash_not_mem_word]

theorem upToHash_call_of_hash {front : List Char} (hfront : '#' ∉ front) (rest : List Char)
    (call : PowerCall) :
    upToHash (front ++ '#' :: rest ++ '/' :: call.word.toList) = front := by
  rw [List.append_assoc, List.cons_append, upToHash_append_hash hfront]

/-- The operation is what stands behind the last slash. -/
theorem call_inj {hostname hostname' : List Char} {call call' : PowerCall}
    (hsame : hostname ++ '/' :: call.word.toList = hostname' ++ '/' :: call'.word.toList) :
    hostname = hostname' ∧ call = call' := by
  have hsplit : Text.splitLast '/' (hostname ++ '/' :: call.word.toList) =
      some (hostname, call.word.toList) :=
    Text.splitLast_eq_some_iff.mpr ⟨rfl, call.slash_not_mem_word⟩
  have hsplit' := Text.splitLast_eq_some_iff.mpr ⟨hsame, call'.slash_not_mem_word⟩
  rw [hsplit, Option.some.injEq, Prod.mk.injEq] at hsplit'
  exact ⟨hsplit'.1, PowerCall.word_inj.mp hsplit'.2⟩

theorem same_or_blurred {base : String}
    (hsame : upToHash (hostname.toList ++ '/' :: call.word.toList) =
      upToHash (hostname'.toList ++ '/' :: call'.word.toList)) :
    (hostname = hostname' ∧ call = call') ∨ Blurred base call call' hostname hostname' := by
  by_cases hname : '#' ∈ hostname.toList
  · obtain ⟨front, rest, hfront, hcut⟩ := exists_eq_append_hash hname
    rw [hcut, upToHash_call_of_hash hfront] at hsame
    by_cases hname' : '#' ∈ hostname'.toList
    · obtain ⟨front', rest', hfront', hcut'⟩ := exists_eq_append_hash hname'
      rw [hcut', upToHash_call_of_hash hfront'] at hsame
      subst hsame
      exact .inr (.names hfront hcut hcut')
    · rw [upToHash_call hname'] at hsame
      subst hsame
      exact .inr (.first hname' (by rw [hcut, List.append_assoc, List.cons_append]))
  · rw [upToHash_call hname] at hsame
    by_cases hname' : '#' ∈ hostname'.toList
    · obtain ⟨front', rest', hfront', hcut'⟩ := exists_eq_append_hash hname'
      rw [hcut', upToHash_call_of_hash hfront'] at hsame
      subst hsame
      exact .inr (.second hname (by rw [hcut', List.append_assoc, List.cons_append]))
    · rw [upToHash_call hname'] at hsame
      obtain ⟨hnames, hcalls⟩ := call_inj hsame
      exact .inl ⟨String.toList_inj.mp hnames, hcalls⟩

theorem upToHash_eq_of_blurred (hbase : '#' ∉ c.basePath.toList)
    (hblurred : Blurred c.basePath call call' hostname hostname') :
    upToHash (hostname.toList ++ '/' :: call.word.toList) =
      upToHash (hostname'.toList ++ '/' :: call'.word.toList) := by
  cases hblurred with
  | base hhash => exact absurd hhash hbase
  | names hfront hname hname' =>
      rw [hname, hname', upToHash_call_of_hash hfront, upToHash_call_of_hash hfront]
  | first hplain hname =>
      have hfront : '#' ∉ hostname'.toList ++ '/' :: call'.word.toList := by
        simp [hplain, call'.hash_not_mem_word]
      rw [hname, upToHash_call hplain, ← List.cons_append, ← List.append_assoc,
        upToHash_call_of_hash hfront]
  | second hplain hname =>
      have hfront : '#' ∉ hostname.toList ++ '/' :: call.word.toList := by
        simp [hplain, call.hash_not_mem_word]
      rw [hname, upToHash_call hplain, ← List.cons_append, ← List.append_assoc,
        upToHash_call_of_hash hfront]

/-- The machine and the operation of a call can be told from its target, except where a `#`
stands in front of what tells two calls apart. -/
theorem target_eq_iff (hrequest : c.request (call.control hostname) = .ok request)
    (hrequest' : c.request (call'.control hostname') = .ok request') :
    (request.send c.hostLine).target = (request'.send c.hostLine).target ↔
      (hostname = hostname' ∧ call = call') ∨
        Blurred c.basePath call call' hostname hostname' := by
  rw [target_eq_iff_upToHash_eq hrequest hrequest', toList_basePath_path, toList_basePath_path]
  by_cases hbase : '#' ∈ c.basePath.toList
  · obtain ⟨front, rest, hfront, hcut⟩ := exists_eq_append_hash hbase
    refine iff_of_true ?_ (.inr (.base hbase))
    simp only [hcut, List.append_assoc, List.cons_append, upToHash_append_hash hfront]
  · have hplain : '#' ∉ c.basePath.toList ++ '/' :: ("vm".toList ++ ['/']) := by
      simp [hbase]
    have hcut : ∀ u, upToHash (c.basePath.toList ++ '/' :: ("vm".toList ++ '/' :: u)) =
        c.basePath.toList ++ '/' :: ("vm".toList ++ ['/']) ++ upToHash u := by
      intro u
      rw [← upToHash_append_of_not_mem hplain]
      simp
    rw [hcut, hcut, List.append_cancel_left_eq]
    constructor
    · exact same_or_blurred
    · rintro (⟨rfl, rfl⟩ | hblurred)
      · rfl
      · exact upToHash_eq_of_blurred hbase hblurred

/-- A client for examples. -/
def localClient : Client :=
  ⟨.http "127.0.0.1:8080" "127.0.0.1:8080" "", "tok", "apps", .ofSeconds 30⟩

/-- What the client for examples sends to change a machine. -/
def posting (target : String) : Http.Request where
  method := "POST"
  uri := ⟨none, none, some target⟩
  version := .v11
  headers := localClient.headerLines.map fun (name, value) => .ofText name value
  body := .empty

/-- A machine whose name spells out the path of another one is resumed by pausing that one. -/
theorem target_eq_iff_spelledPath :
    localClient.request (.resume "vm-1/pause#") = .ok (posting "/vm/vm-1/pause") ∧
      localClient.request (.pause "vm-1") = .ok (posting "/vm/vm-1/pause") ∧
      ((posting "/vm/vm-1/pause").send localClient.hostLine).target = "/vm/vm-1/pause" ∧
      (("vm-1/pause#" = "vm-1" ∧ PowerCall.resume = .pause) ∨
        Blurred localClient.basePath .resume .pause "vm-1/pause#" "vm-1") := by
  have hresume : localClient.request (PowerCall.resume.control "vm-1/pause#") =
      .ok (posting "/vm/vm-1/pause") := by rfl
  have hpause : localClient.request (PowerCall.pause.control "vm-1") =
      .ok (posting "/vm/vm-1/pause") := by rfl
  exact ⟨hresume, hpause, rfl, (target_eq_iff hresume hpause).mp rfl⟩

/-- The law as one would like it to be: a target says which machine is meant, and what is to
happen to it. -/
def Identifies (c : Client) : Prop :=
  ∀ {call call' : PowerCall} {hostname hostname' : String} {request request' : Http.Request},
    c.request (call.control hostname) = .ok request →
      c.request (call'.control hostname') = .ok request' →
        (request.send c.hostLine).target = (request'.send c.hostLine).target →
          hostname = hostname' ∧ call = call'

/-- Both calls of a machine with a `#` in its name go out with the path of the machine alone, and
the name is cut short. -/
theorem not_identifies_hashInName : ¬ Identifies localClient := by
  intro hlaw
  have hresume : localClient.request (PowerCall.resume.control "vm-1#a") =
      .ok (posting "/vm/vm-1") := by rfl
  have hpause : localClient.request (PowerCall.pause.control "vm-1#a") =
      .ok (posting "/vm/vm-1") := by rfl
  exact absurd (hlaw hresume hpause rfl).2 (by decide)

end Client

end WakeRouter
