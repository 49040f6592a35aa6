import WakeRouter.Manager.Error
import WakeRouter.Manager.Record

/-!
# The manager of the machines behind the keys

Callers ask the manager for the record of a key, or for the address of a machine that
runs.  The first caller of a key has the control plane describe it.  A machine that does
not run is woken once for all callers that come while the wake is under way; the wake
belongs to none of them, so it goes on when they give up.

`Manager.step` says what each event does, and `none` that the event cannot happen.  An
event is one look at the records, or one look of a caller whether its wait is over; between
any two of them others may come.  What the control plane answers, and when, comes with the
events; so do the names of callers.
-/

namespace WakeRouter

/-- What the callers that wait for a wake are told. -/
inductive WakeOutcome
  | ready (address : String)
  | failed (cause : ControlError)
deriving DecidableEq, Repr

/-- The outcome of a wake whose resume call ended that way, for a machine at the address. -/
def WakeOutcome.ofResult (address : String) : Acknowledgement → WakeOutcome
  | .done => .ready address
  | .failed cause => .failed cause

/-- How far the call that resumes a machine has come. -/
inductive WakeStage
  /-- The call is still to begin. -/
  | spawned
  | resuming (since : Instant)
  | resumed (result : Acknowledgement)
  /-- The record has been told. -/
  | delivered
deriving DecidableEq, Repr

structure Wake where
  key : String
  handle : String
  stage : WakeStage
  outcome? : Option WakeOutcome
deriving DecidableEq, Repr

/-- What a caller wants. -/
inductive Purpose
  | lookup
  /-- An address, after waiting that long for a wake at most. -/
  | ensure (timeout : Duration)
deriving DecidableEq, Repr

inductive Answer
  | record (r : Snapshot)
  | address (address : String)
  | error (e : ManagerError)
deriving DecidableEq, Repr

/-- What a caller for the key is told when its wake has ended. -/
def WakeOutcome.answer (key : String) : WakeOutcome → Answer
  | .ready address => .address address
  | .failed cause => .error (.wakeFailed key cause)

/-- The terms on which a caller waits for a wake. -/
structure Wait where
  episode : Episode
  since : Instant
  timeout : Duration
deriving DecidableEq, Repr

inductive CallerPhase
  /-- The control plane has been asked which machines serve the key. -/
  | describing
  /-- The key has a record; the caller, who wants an address, has not looked at it yet. -/
  | found
  | waiting (w : Wait)
  | answered (a : Answer)
  /-- The caller went away without an answer. -/
  | left
deriving DecidableEq, Repr

structure Caller where
  key : String
  purpose : Purpose
  /-- The caller need not wait any longer. -/
  cancelled : Bool
  phase : CallerPhase
deriving DecidableEq, Repr

namespace Caller

def isPending (caller : Caller) : Bool :=
  match caller.phase with
  | .describing | .found | .waiting _ => true
  | .answered _ | .left => false

def answer? (caller : Caller) : Option Answer :=
  match caller.phase with
  | .answered a => some a
  | _ => none

theorem answer?_eq_some_iff {caller : Caller} {a : Answer} :
    caller.answer? = some a ↔ caller.phase = .answered a := by
  unfold answer?
  cases caller.phase <;> simp

end Caller

structure Manager where
  now : Instant
  /-- A resume call that takes longer has failed. -/
  resumeDeadline : Duration
  records : Records
  wakes : Table Episode Wake
  callers : Table CallerId Caller
deriving DecidableEq, Repr

namespace Manager

def defaultResumeDeadline : Duration := .ofSeconds 30

def start (resumeDeadline : Duration) : Manager where
  now := 0
  resumeDeadline := resumeDeadline
  records := .empty
  wakes := .empty
  callers := .empty

/-! ## Records -/

def snapshot? (m : Manager) (key : String) : Option Snapshot :=
  (m.records.find? key).map (Record.snapshot m.now key)

def state? (m : Manager) (key : String) : Option Lifecycle :=
  (m.records.find? key).map Record.state

/-- The name by which the control plane knows the machine of a key. -/
def handle? (m : Manager) (key : String) : Option String :=
  ((m.records.find? key).map Record.handle).filter fun handle => !handle.isEmpty

def modify (m : Manager) (key : String) (f : Record → Record) : Manager :=
  { m with records := m.records.modify key f }

/-- Note that a request went to the machine of the key. -/
def touch (m : Manager) (key : String) : Manager :=
  m.modify key (Record.touch m.now)

/-- Note that the machine of the key was paused. -/
def markPaused (m : Manager) (key : String) : Manager :=
  m.modify key Record.markPaused

def idleKeys (m : Manager) (timeout : Duration) : List String :=
  (m.records.entries.filter fun entry => entry.2.isIdle m.now timeout).map Prod.fst

/-! ## Callers and wakes -/

def setPhase (m : Manager) (c : CallerId) (phase : CallerPhase) : Manager :=
  { m with callers := m.callers.modify c fun caller => { caller with phase := phase } }

def reply (m : Manager) (c : CallerId) (a : Answer) : Manager :=
  m.setPhase c (.answered a)

def setStage (m : Manager) (e : Episode) (stage : WakeStage) : Manager :=
  { m with wakes := m.wakes.modify e fun wake => { wake with stage := stage } }

def publish (m : Manager) (e : Episode) (outcome : WakeOutcome) : Manager :=
  { m with wakes := m.wakes.modify e fun wake => { wake with outcome? := some outcome } }

def outcome? (m : Manager) (e : Episode) : Option WakeOutcome :=
  (m.wakes.find? e).bind Wake.outcome?

/-- Whether some record still waits for the end of the wake. -/
def isHeld (m : Manager) (e : Episode) : Bool :=
  m.records.entries.any fun entry => entry.2.wake? == some e

def abandoned : ControlError := .remote "wake abandoned before completion"

/-- How a resume call has failed that broke down instead of coming back. -/
def brokenDown (report : String) : ControlError := .remote s!"resume task failed: {report}"

/-- What a waiting caller is told when it looks: the outcome of the wake goes before the
end of its patience, and that before its cancellation. -/
def verdict? (m : Manager) (caller : Caller) (w : Wait) : Option Answer :=
  match m.outcome? w.episode with
  | some outcome => some (outcome.answer caller.key)
  | none =>
    if !m.isHeld w.episode then some (.error (.wakeFailed caller.key abandoned))
    else if w.since + w.timeout.nanos ≤ m.now then
      some (.error (.wakeTimeout caller.key w.timeout))
    else if caller.cancelled then some (.error (.cancelled caller.key))
    else none

/-- The caller looks whether its wait is over. -/
def look (m : Manager) (c : CallerId) (caller : Caller) (w : Wait) : Manager :=
  match m.verdict? caller w with
  | some a => m.reply c a
  | none => m

/-- Begin a wake that goes by the name of the caller. -/
def beginWake (m : Manager) (c : CallerId) (key : String) (r : Record) : Manager :=
  { m with
    records := m.records.modify key (Record.beginWake c)
    wakes := m.wakes.addNew c ⟨key, r.handle, .spawned, none⟩ }

/-- A caller that wants an address looks at the record of its key: it is answered, joins
the wake that is under way, or begins one. -/
def engage (m : Manager) (c : CallerId) (caller : Caller) (timeout : Duration) : Manager :=
  match m.records.find? caller.key with
  | none => m.reply c (.error (.notFound caller.key))
  | some r =>
    match r.state with
    | .notFound => m.reply c (.error (.notFound caller.key))
    | .running => m.reply c (.address r.address)
    | .waking | .paused | .unknown =>
      match r.wake? with
      | some e => m.setPhase c (.waiting ⟨e, m.now, timeout⟩)
      | none => (m.beginWake c caller.key r).setPhase c (.waiting ⟨c, m.now, timeout⟩)

/-- How far a caller gets that looks for the record of its key.  Where there is none, the
control plane is asked. -/
def reception (m : Manager) (key : String) (purpose : Purpose) : CallerPhase :=
  match m.records.find? key with
  | none => .describing
  | some r =>
    match purpose with
    | .lookup => .answered (.record (r.snapshot m.now key))
    | .ensure _ => .found

/-- A caller comes. -/
def arrive (m : Manager) (c : CallerId) (key : String) (purpose : Purpose) (cancelled : Bool) :
    Manager :=
  { m with callers := m.callers.addNew c ⟨key, purpose, cancelled, m.reception key purpose⟩ }

/-- Make a record for a key that has none. -/
def discover (m : Manager) (key : String) (nodes : List Node) : Manager :=
  { m with records := m.records.addNew key (.ofNodes nodes m.now) }

/-- The control plane answers a caller.  The first answer makes the record of the key. -/
def describe (m : Manager) (c : CallerId) (caller : Caller)
    (answer : Except ControlError (List Node)) : Manager :=
  match answer with
  | .error e => m.reply c (.error (.transport caller.key e))
  | .ok nodes =>
    let m' := m.discover caller.key nodes
    m'.setPhase c (m'.reception caller.key caller.purpose)

/-- The record of the key hears how its resume call ended, and the callers of the wake
that the record holds hear it too. -/
def finish (m : Manager) (key : String) (result : Acknowledgement) : Manager :=
  match m.records.find? key with
  | none => m
  | some r =>
    match r.state, r.wake? with
    | .waking, some e =>
      (m.modify key (Record.endWake result)).publish e (.ofResult r.address result)
    | _, _ => m

/-! ## Events -/

inductive Event
  | elapse (d : Duration)
  | lookup (c : CallerId) (key : String)
  /-- A caller wants an address; it may come cancelled already. -/
  | ensure (c : CallerId) (key : String) (timeout : Duration) (cancelled : Bool)
  | described (c : CallerId) (answer : Except ControlError (List Node))
  /-- A caller that wants an address looks at the record of its key. -/
  | engage (c : CallerId)
  /-- A waiting caller looks whether its wait is over. -/
  | poll (c : CallerId)
  | cancel (c : CallerId)
  | leave (c : CallerId)
  /-- A resume call begins. -/
  | resume (e : Episode)
  /-- A resume call ends. -/
  | resumed (e : Episode) (result : Acknowledgement)
  /-- A resume call is given up because it takes too long. -/
  | overrun (e : Episode)
  /-- A resume call breaks down instead of coming back. -/
  | brokeDown (e : Episode) (report : String)
  /-- The end of a resume call reaches the record. -/
  | deliver (e : Episode)
  | touch (key : String)
  | markPaused (key : String)

def step (m : Manager) : Event → Option Manager
  | .elapse d => some { m with now := m.now + d.nanos }
  | .lookup c key => if m.callers.has c then none else some (m.arrive c key .lookup false)
  | .ensure c key timeout cancelled =>
    if m.callers.has c then none else some (m.arrive c key (.ensure timeout) cancelled)
  | .described c answer => do
    let caller ← m.callers.find? c
    match caller.phase with
    | .describing => some (m.describe c caller answer)
    | _ => none
  | .engage c => do
    let caller ← m.callers.find? c
    match caller.phase, caller.purpose with
    | .found, .ensure timeout => some (m.engage c caller timeout)
    | _, _ => none
  | .poll c => do
    let caller ← m.callers.find? c
    match caller.phase with
    | .waiting w => some (m.look c caller w)
    | _ => none
  | .cancel c => do
    let caller ← m.callers.find? c
    if caller.isPending then
      some { m with callers := m.callers.modify c fun caller => { caller with cancelled := true } }
    else none
  | .leave c => do
    let caller ← m.callers.find? c
    if caller.isPending then some (m.setPhase c .left) else none
  | .resume e => do
    let wake ← m.wakes.find? e
    match wake.stage with
    | .spawned => some (m.setStage e (.resuming m.now))
    | _ => none
  | .resumed e result => do
    let wake ← m.wakes.find? e
    match wake.stage with
    | .resuming _ => some (m.setStage e (.resumed result))
    | _ => none
  | .overrun e => do
    let wake ← m.wakes.find? e
    match wake.stage with
    | .resuming since =>
      if since + m.resumeDeadline.nanos ≤ m.now then
        some (m.setStage e (.resumed (.failed (.timeout m.resumeDeadline))))
      else none
    | _ => none
  | .brokeDown e report => do
    let wake ← m.wakes.find? e
    match wake.stage with
    | .resuming _ => some (m.setStage e (.resumed (.failed (brokenDown report))))
    | _ => none
  | .deliver e => do
    let wake ← m.wakes.find? e
    match wake.stage with
    | .resumed result => some ((m.setStage e .delivered).finish wake.key result)
    | _ => none
  | .touch key => some (m.touch key)
  | .markPaused key => some (m.markPaused key)

end Manager

end WakeRouter
