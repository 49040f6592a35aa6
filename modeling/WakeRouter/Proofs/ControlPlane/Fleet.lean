import WakeRouter.ControlPlane.Fleet

/-!
# The status of the machines of a fleet

A call that succeeds gives one machine the status that the call is for; nothing else changes
the status of a machine.
-/

namespace WakeRouter

theorem PowerCall.ofWord_status (call : PowerCall) :
    RemoteStatus.ofWord call.status.word = call.status := by
  cases call <;> decide

namespace Fleet

variable {f : Fleet}

theorem find?_setStatus (hostname name : String) (status : RemoteStatus) (nodes : List Node) :
    (setStatus hostname status nodes).find? (fun node => node.hostname == name) =
      (nodes.find? fun node => node.hostname == name).map fun node =>
        if name = hostname then { node with status := status.word } else node := by
  induction nodes with
  | nil => rfl
  | cons node rest ih =>
      unfold setStatus
      by_cases hname : node.hostname = name
      · subst hname
        split <;> simp [*]
      · split
        next hself =>
          subst hself
          simp [hname, Ne.symm hname]
        next => simpa [List.find?_cons, hname] using ih

theorem perform_cases (f : Fleet) (call : PowerCall) (hostname : String) :
    (∃ cause, f.perform call hostname = (.failed cause, f)) ∨
      ∃ f', f.perform call hostname = (.done, f') ∧
        ∀ name, f'.statusOf? name =
          if name = hostname then some call.status else f.statusOf? name := by
  unfold perform
  split
  · exact .inl ⟨_, rfl⟩
  split
  next hknown =>
    refine .inr ⟨_, rfl, fun name => ?_⟩
    obtain ⟨node, hnode⟩ : ∃ node, f.nodes.find? (fun node => node.hostname == hostname) =
        some node := by
      rw [← Option.isSome_iff_exists, List.find?_isSome]
      simpa using hknown
    rw [statusOf?, find?_setStatus]
    split
    next hself => simp [hself, hnode, Node.remoteStatus, call.ofWord_status]
    next => simp [statusOf?]
  · exact .inl ⟨_, rfl⟩

theorem statusOf?_change (change : Change) {hostname : String} {status : RemoteStatus}
    (hstatus : f.statusOf? hostname = some status) :
    (f.change change).statusOf? hostname = some status := by
  cases change with
  | addNode node =>
      obtain ⟨known, hknown, hsame⟩ := Option.map_eq_some_iff.mp hstatus
      simp [Fleet.change, addNode, statusOf?, List.find?_append, hknown, hsame]
  | delay call d => cases call <;> exact hstatus
  | failDescribe | fail | delayDescribe | breakDown => exact hstatus

theorem statusOf?_perform_of_ne (f : Fleet) (call : PowerCall) {hostname name : String}
    (hne : name ≠ hostname) : (f.perform call hostname).2.statusOf? name = f.statusOf? name := by
  rcases f.perform_cases call hostname with ⟨cause, hfailed⟩ | ⟨f', hdone, hstatus⟩
  · rw [hfailed]
  · rw [hdone, hstatus, if_neg hne]

theorem find?_of_mem {nodes : List Node} (hapart : (nodes.map Node.hostname).Nodup) {node : Node}
    (hnode : node ∈ nodes) : nodes.find? (fun other => other.hostname == node.hostname) =
      some node := by
  induction nodes with
  | nil => cases hnode
  | cons first rest ih =>
      obtain ⟨hfirst, hrest⟩ := List.nodup_cons.mp hapart
      rcases List.mem_cons.mp hnode with rfl | hlater
      · simp
      · have hne : first.hostname ≠ node.hostname := by
          intro hsame
          exact hfirst (hsame ▸ List.mem_map_of_mem hlater)
        simpa [List.find?_cons, hne] using ih hrest hlater

theorem statusOf?_of_describe (hapart : (f.nodes.map Node.hostname).Nodup) {key : String}
    {nodes : List Node} (hdescribe : f.describe key = .ok nodes) {node : Node}
    (hnode : node ∈ nodes) : f.statusOf? node.hostname = some node.remoteStatus := by
  unfold describe at hdescribe
  split at hdescribe
  · cases hdescribe
  · cases hdescribe
    rw [statusOf?, find?_of_mem hapart (List.mem_filter.mp hnode).1, Option.map_some]

end Fleet

end WakeRouter
