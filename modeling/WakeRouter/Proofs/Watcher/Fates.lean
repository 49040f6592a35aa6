import WakeRouter.Proofs.Watcher.Exclusion

/-!
# Fates of idle keys

A tick pauses the machine of a key, fails to do so, or passes the key over because it has no
machine.  Which of these it is depends on the handle of the key and on the answer of the control
plane, and on nothing that becomes of other keys.  So what a tick does is said of the list of
keys that have had their turn: how one more key adds to the counts, to the records and to the
pause calls.
-/

namespace WakeRouter

theorem Record.markPaused_of_running {r : Record} (hrunning : r.state = .running) :
    r.markPaused = { r with state := .paused } := by
  simp [markPaused, hrunning]

/-- What becomes of a key when its turn comes. -/
inductive Fate
  | paused
  | failed
  /-- The key has no machine. -/
  | skipped
deriving DecidableEq

namespace Manager

variable {m : Manager} {answers : String → Acknowledgement} {key handle : String}

/-- What becomes of the key when the control plane answers that way for each machine. -/
def fate (m : Manager) (answers : String → Acknowledgement) (key : String) : Fate :=
  match m.handle? key with
  | none => .skipped
  | some handle =>
    match answers handle with
    | .done => .paused
    | .failed _ => .failed

/-- One pause call for each of the keys that has a machine. -/
def pauseCalls (m : Manager) (keys : List String) : List (String × String) :=
  keys.filterMap fun key => (m.handle? key).map (key, ·)

/-- The machines of the keys have been paused where the control plane let them. -/
def pauseAll (m : Manager) (answers : String → Acknowledgement) (keys : List String) : Manager :=
  (keys.filter fun key => m.fate answers key = .paused).foldl markPaused m

/-- The counts of a tick after the turns of the keys. -/
def tally (m : Manager) (answers : String → Acknowledgement) (idle : Nat) (keys : List String) :
    TickStats :=
  let fates := keys.map (m.fate answers)
  ⟨idle, fates.count .paused, fates.count .failed, fates.count .skipped⟩

theorem fate_of_none (hnone : m.handle? key = none) : m.fate answers key = .skipped := by
  simp [fate, hnone]

theorem pauseCalls_append_skipped (handled : List String) {skipped : List String}
    (hskipped : ∀ k ∈ skipped, m.handle? k = none) (more : List String) :
    m.pauseCalls (handled ++ skipped ++ more) = m.pauseCalls (handled ++ more) := by
  have hnone : skipped.filterMap (fun k => (m.handle? k).map (k, ·)) = [] := by
    apply List.filterMap_eq_nil_iff.mpr
    intro k hk
    simp [hskipped k hk]
  simp [pauseCalls, hnone]

theorem tally_append_skipped {idle : Nat} {handled skipped : List String}
    (hskipped : ∀ k ∈ skipped, m.handle? k = none) :
    m.tally answers idle (handled ++ skipped) =
      { m.tally answers idle handled with
        skipped := (m.tally answers idle handled).skipped + skipped.length } := by
  have hfates : skipped.map (m.fate answers) = List.replicate skipped.length .skipped := by
    apply List.eq_replicate_iff.mpr
    refine ⟨List.length_map _, ?_⟩
    intro fate hfate
    obtain ⟨k, hk, rfl⟩ := List.mem_map.mp hfate
    exact fate_of_none (hskipped k hk)
  simp [tally, hfates, List.count_replicate]

theorem tally_concat {idle : Nat} {handled : List String} {tick : Tick}
    (hhandle : m.handle? key = some handle) (hstats : tick.stats = m.tally answers idle handled) :
    (tick.count (answers handle)).stats = m.tally answers idle (handled ++ [key]) := by
  have hfate : m.fate answers key = match answers handle with
      | .done => .paused
      | .failed _ => .failed := by
    simp [fate, hhandle]
  cases hanswer : answers handle <;> rw [hanswer] at hfate <;>
    simp [Tick.count, hstats, tally, hfate, List.count_append]

theorem total_tally (m : Manager) (answers : String → Acknowledgement) (idle : Nat)
    (keys : List String) :
    (m.tally answers idle keys).paused + (m.tally answers idle keys).failed +
      (m.tally answers idle keys).skipped = keys.length := by
  induction keys with
  | nil => rfl
  | cons key rest ih =>
      simp only [tally, List.map_cons, List.count_cons, List.length_cons] at ih ⊢
      cases m.fate answers key <;> simp <;> omega

theorem tally_perm {keys keys' : List String} (hperm : keys.Perm keys') (idle : Nat) :
    m.tally answers idle keys = m.tally answers idle keys' := by
  simp only [tally, (hperm.map (m.fate answers)).count_eq]

/-! ## Machines paused one after another -/

theorem handle?_markPaused (m : Manager) (key k : String) :
    (m.markPaused key).handle? k = m.handle? k := by
  have hhandle : ∀ r : Record, r.markPaused.handle = r.handle := by
    intro r
    unfold Record.markPaused
    split <;> rfl
  simp only [handle?, markPaused, find?_records_modify]
  split <;> simp [Option.map_map, Function.comp_def, hhandle]

theorem handle?_foldl (keys : List String) (m : Manager) :
    (keys.foldl markPaused m).handle? = m.handle? := by
  induction keys generalizing m with
  | nil => rfl
  | cons key rest ih =>
      rw [List.foldl_cons, ih]
      funext k
      exact handle?_markPaused m key k

theorem handle?_pauseAll (m : Manager) (answers : String → Acknowledgement) (keys : List String) :
    (m.pauseAll answers keys).handle? = m.handle? :=
  handle?_foldl _ m

theorem find?_foldl (keys : List String) (m : Manager) (key : String) :
    (keys.foldl markPaused m).records.find? key =
      if key ∈ keys then (m.records.find? key).map Record.markPaused else m.records.find? key := by
  have htwice : ∀ r : Record, r.markPaused.markPaused = r.markPaused := by
    intro r
    cases hstate : r.state <;> simp [Record.markPaused, hstate]
  induction keys generalizing m with
  | nil => rfl
  | cons k rest ih =>
      rw [List.foldl_cons, ih, markPaused, find?_records_modify]
      by_cases hk : key = k
      · subst hk
        split <;> simp [Option.map_map, Function.comp_def, htwice]
      · simp [hk]

theorem foldl_perm {keys keys' : List String} (hperm : keys.Perm keys') (m : Manager) :
    keys.foldl markPaused m = keys'.foldl markPaused m := by
  apply hperm.foldl_eq'
  intro a _ b _ m
  simp only [markPaused, modify, Table.modify_comm]

theorem pauseAll_append_skipped {handled skipped : List String}
    (hskipped : ∀ k ∈ skipped, m.handle? k = none) :
    m.pauseAll answers (handled ++ skipped) = m.pauseAll answers handled := by
  have hnone : skipped.filter (fun k => m.fate answers k = .paused) = [] := by
    apply List.filter_eq_nil_iff.mpr
    intro k hk
    simp [fate_of_none (hskipped k hk)]
  rw [pauseAll, List.filter_append, hnone, List.append_nil, pauseAll]

theorem pauseAll_concat {handled : List String} (hhandle : m.handle? key = some handle) :
    m.pauseAll answers (handled ++ [key]) =
      Upkeep.afterPause (m.pauseAll answers handled) key (answers handle) := by
  cases hanswer : answers handle <;>
    simp [pauseAll, fate, hhandle, hanswer, Upkeep.afterPause, List.filter_append]

end Manager

/-! ## The next pause call -/

namespace Tick

/-- The key and the machine that the tick waits for. -/
def call? (t : Tick) : Option (String × String) :=
  match t.phase with
  | .pausing key handle _ => some (key, handle)
  | .scheduled | .done | .broken | .dropped => none

/-- The counts after a tick has come to the first key that has a machine, or to its end. -/
theorem proceed_cases (handleOf : String → Option String) (stopped : Bool) (t : Tick)
    (keys : List String) :
    ∃ skipped rest, keys = skipped ++ rest ∧ (∀ k ∈ skipped, handleOf k = none) ∧
      (t.proceed handleOf stopped keys).stats =
        { t.stats with skipped := t.stats.skipped + skipped.length } ∧
      ((t.proceed handleOf stopped keys).phase = .done ∧ (rest = [] ∨ stopped) ∨
        ∃ key handle later, rest = key :: later ∧ handleOf key = some handle ∧
          (t.proceed handleOf stopped keys).phase = .pausing key handle later) := by
  induction keys generalizing t with
  | nil => exact ⟨[], [], rfl, by simp, rfl, .inl ⟨rfl, .inl rfl⟩⟩
  | cons key rest ih =>
      unfold proceed
      split
      next hstopped => exact ⟨[], key :: rest, rfl, by simp, rfl, .inl ⟨rfl, .inr hstopped⟩⟩
      cases hhandle : handleOf key with
      | some handle =>
          exact ⟨[], key :: rest, rfl, by simp, rfl, .inr ⟨key, handle, rest, rfl, hhandle, rfl⟩⟩
      | none =>
          obtain ⟨skipped, later, rfl, hskipped, hstats, hphase⟩ :=
            ih { t with stats := { t.stats with skipped := t.stats.skipped + 1 } }
          refine ⟨key :: skipped, later, rfl, ?_, ?_, hphase⟩
          · exact List.forall_mem_cons.mpr ⟨hhandle, hskipped⟩
          · simp [hstats, Nat.add_assoc, Nat.add_comm 1]

end Tick

end WakeRouter
