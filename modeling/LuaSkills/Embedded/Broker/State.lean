import LuaSkills.Data.AssocMap
import LuaSkills.Embedded.Journal.Record

/-!
# The broker of queued host requests

The bounded records and the single-delivery queue between Lua calls that wait and an SDK that pumps
requests. Every method is a sequence of sections that hold the metadata lock; between two sections of
one call any other call may run its own. `Action` is one section with what it left for the next, a
thread is the actions that remain of a call, and a run interleaves threads in any order. What happens
outside the broker, the caller's authority, the effect journal and the allocator, answers each section
as it likes (`Answers`).
-/

namespace LuaSkills.Embedded

/-! ## Requests -/

structure HostRequest where
  effectId : Option String
  requestId : String
  registrationId : String
  name : String
  version : String
  caller : CapabilityCaller
  arguments : Json
  remainingMs : ℕ
deriving DecidableEq

inductive HostRequestPhase where
  | queued | dispatched | completing | completed
deriving DecidableEq

structure CapabilityOutcome where
  result : EmbeddedResult Json
  effects : EffectState

/-- The immutable part of a registration. -/
structure CapabilityEntry where
  id : String
  name : String
  version : String
  maxOutputBytes : ℕ

/-- An admitted invocation that owns its permit and its effect attempt. -/
structure PreparedCapability where
  finalization : Bool
  entry : CapabilityEntry
  effectId : Option String
  caller : CapabilityCaller
  arguments : Json

structure RequestRecord where
  pendingOutcome : Option CapabilityOutcome
  request : HostRequest
  prepared : Option PreparedCapability
  outcome : Option CapabilityOutcome
  phase : HostRequestPhase
  cancellation : Option EmbeddedError
  waiterAlive : Bool
  bytes : ℕ

/-- Bounded retained records and single-delivery ready queue. -/
structure BrokerState where
  sequence : ℕ
  closing : Bool
  ready : List String
  records : AssocMap String RequestRecord
  tombstones : List String
  bytes : ℕ

/-- The immutable part of a broker, with the sizes serde computes and the output schemas of the
registrations. -/
structure HostRequestBroker where
  runtimeId : String
  maxRecords : ℕ
  maxBytes : ℕ
  requestSize : HostRequest → ℕ
  valueSize : Json → ℕ
  errorSize : EmbeddedError → ℕ
  schema : String → Json → EmbeddedResult Unit

/-- What a section meets outside the broker, in the order in which it asks. -/
structure Answers where
  authorize : EmbeddedResult Unit
  prepare : EmbeddedResult Unit
  reauthorize : EmbeddedResult Unit
  checkpoint : EmbeddedResult Bool
  confirm : EmbeddedResult Unit
  begin : EmbeddedResult Unit
  bind : EmbeddedResult Unit
  poll : EmbeddedResult Bool
  remainingMs : ℕ

/-- The entry gates of the registry: registrations that were closed and those that accept closing
stages only. -/
structure EntryGates where
  closed : List String
  finalizationOnly : List String

namespace HostRequestBroker

def closed : EmbeddedError := ⟨.closed, "host request admission is closed"⟩

def capacity : EmbeddedError := ⟨.capacityExceeded, "host request capacity reached"⟩

def poisoned : EmbeddedError := .internal "host request state is inconsistent"

def alreadyCompleted : EmbeddedError :=
  ⟨.alreadyCompleted, "host request already has a completion owner"⟩

def unknown (s : BrokerState) (id : String) : EmbeddedError :=
  if id ∈ s.tombstones then alreadyCompleted
  else .notFound "host request identity is unknown or expired"

/-- Whether the gate of a registration lets a transition pass. -/
def withDispatchGate (gates : EntryGates) (entry : CapabilityEntry) (finalization : Bool) :
    EmbeddedResult Unit :=
  refuseIf (entry.id ∈ gates.closed ∨ (entry.id ∈ gates.finalizationOnly ∧ ¬ finalization))
    (EmbeddedError.mk .closed "capability registration is closed")

variable (B : HostRequestBroker)

def new : BrokerState := ⟨0, false, [], ∅, [], 0⟩

def hostId (sequence : ℕ) : String := B.runtimeId ++ (":host:" ++ sequence.repr)

/-! ## Sections -/

/-- The request that `submit` publishes. -/
def request (prepared : PreparedCapability) (sequence remainingMs : ℕ) : HostRequest :=
  ⟨prepared.effectId, B.hostId sequence, prepared.entry.id, prepared.entry.name,
    prepared.entry.version, prepared.caller, prepared.arguments, remainingMs⟩

/-- The admission checks of `submit`, with the sequence, the bytes of the record and the new total. -/
def checkSubmit (s : BrokerState) (prepared : PreparedCapability) (remainingMs : ℕ) :
    EmbeddedResult (ℕ × ℕ × ℕ) := do
  refuseIf s.closing closed
  refuseIf (s.records.size ≥ B.maxRecords) capacity
  let sequence ← okOr (checkedAdd s.sequence 1) capacity
  let size ← jsonSize (B.requestSize (B.request prepared sequence remainingMs)) B.maxBytes
  let bytes ← okOr (checkedAdd size prepared.entry.maxOutputBytes) capacity
  let total ← okOr ((checkedAdd s.bytes bytes).filter (· ≤ B.maxBytes)) capacity
  return (sequence, bytes, total)

/-- Publishes a request. The identity is consumed even when the effect or the entry gate refuses. -/
def submit (s : BrokerState) (gates : EntryGates) (prepared : PreparedCapability) (a : Answers) :
    BrokerState × EmbeddedResult String :=
  match B.checkSubmit s prepared a.remainingMs with
  | .error e => (s, .error e)
  | .ok (sequence, bytes, total) =>
    let s := { s with sequence }
    match a.bind.bind fun _ => withDispatchGate gates prepared.entry prepared.finalization with
    | .error e => (s, .error e)
    | .ok _ =>
      let id := B.hostId sequence
      ({ s with
        bytes := total
        ready := s.ready ++ [id]
        records := s.records.insert id ⟨none, B.request prepared sequence a.remainingMs,
          some prepared, none, .queued, none, true, bytes⟩ }, .ok id)

/-- What one round of `take_next` ends with. -/
inductive Delivery where
  | idle
  | delivered (request : HostRequest)
  | failed (error : EmbeddedError)
  | refused (id : String) (error : EmbeddedError)

/-- A failure of the head: an internal one stops the pump, any other cancels the request. -/
def Delivery.ofError (id : String) (error : EmbeddedError) : Delivery :=
  if error.code = .internal then .failed error else .refused id error

/-- The last checks before dispatch; `false` leaves the request queued. -/
def dispatch (gates : EntryGates) (prepared : PreparedCapability) (a : Answers) :
    EmbeddedResult Bool := do
  a.reauthorize
  withDispatchGate gates prepared.entry prepared.finalization
  if ← a.checkpoint then
    a.confirm
    a.begin
    return true
  else return false

def takeNext (s : BrokerState) (gates : EntryGates) (a : Answers) : BrokerState × Delivery :=
  if s.closing then (s, .idle) else
  match s.ready with
  | [] => (s, .idle)
  | id :: rest =>
    match s.records.lookup id with
    | none => (s, .failed poisoned)
    | some record =>
      match record.phase, record.prepared with
      | .queued, some prepared =>
        match a.authorize with
        | .error e => (s, .ofError id e)
        | .ok _ =>
          match a.prepare with
          | .error e => (s, .failed e)
          | .ok _ =>
            match dispatch gates prepared a with
            | .error e => (s, .ofError id e)
            | .ok false => (s, .idle)
            | .ok true =>
              ({ s with
                ready := rest
                records := s.records.insert id { record with phase := .dispatched } },
                .delivered { record.request with remainingMs := a.remainingMs })
      | _, _ => (s, .failed poisoned)

/-- `remove`: the record leaves, its identity stays known for a while. -/
def remove (s : BrokerState) (id : String) : BrokerState :=
  match s.records.lookup id with
  | none => s
  | some record =>
    let tombstones := s.tombstones ++ [id]
    { s with
      records := s.records.erase id
      bytes := s.bytes - record.bytes
      ready := s.ready.filter (· ≠ id)
      tombstones := tombstones.drop (tombstones.length - B.maxRecords) }

/-- `publish`: a cancellation replaces the result, never the effects. -/
def publish (s : BrokerState) (id : String) (outcome : CapabilityOutcome) :
    BrokerState × Option CapabilityOutcome :=
  match s.records.lookup id with
  | none => (s, none)
  | some record =>
    let outcome := match record.cancellation with
      | some error => { outcome with result := .error error }
      | none => outcome
    let s := { s with
      records := s.records.insert id { record with outcome := some outcome, phase := .completed } }
    (if record.waiterAlive then s else B.remove s id, some outcome)

/-- Bounds a host outcome by the registration it came from; the effects are evidence and stay. -/
def validateOutcome (entry : CapabilityEntry) (outcome : CapabilityOutcome) : CapabilityOutcome :=
  let validation : EmbeddedResult Unit := match outcome.result with
    | .ok value => do
      let _ ← jsonSize (B.valueSize value) entry.maxOutputBytes
      B.schema entry.id value
    | .error error => do
      let _ ← jsonSize (B.errorSize error) entry.maxOutputBytes
  let result := match validation with
    | .ok _ => outcome.result
    | .error error => .error error
  { outcome with
    result := match result with
      | .ok value => .ok value
      | .error error => .error
        (if B.errorSize error > entry.maxOutputBytes then
          { error with message := "host capability result rejected" } else error) }

/-- The authority at the moment decides the result of an outcome. -/
def authorized (a : Answers) (outcome : CapabilityOutcome) : CapabilityOutcome :=
  match a.authorize with
  | .ok _ => outcome
  | .error error => { outcome with result := .error error }

end HostRequestBroker

/-! ## Threads -/

/-- The next section of a call. `settle`, `retain` and `publish` own a completion that the section
before them took out of its record. -/
inductive Action where
  /-- `maintain_completions`. -/
  | maintain
  /-- `drive_completion` up to the claim. -/
  | drive (id : String)
  /-- `drive_completion` with the claimed completion. -/
  | settle (id : String) (prepared : PreparedCapability) (outcome : CapabilityOutcome)
  /-- `refresh` after its drive. -/
  | observe (id : String)
  /-- `cancel` up to the claim; a tolerant caller goes on when the identity is unknown. -/
  | cancel (id : String) (error : EmbeddedError) (tolerant : Bool)
  | publish (id : String) (outcome : CapabilityOutcome)
  /-- `complete` up to the claim. -/
  | accept (id : String) (outcome : CapabilityOutcome)
  /-- `complete` with the claimed invocation. -/
  | retain (id : String) (prepared : PreparedCapability) (outcome : CapabilityOutcome)
  /-- The delivery loop of `take` and `take_json`. -/
  | taking (limit : ℕ)
  /-- `retire_registration`. -/
  | scan (registrationId : String)
  /-- The destructor of a handle. -/
  | abandon (id : String)
  | close

def Action.owner? : Action → Option String
  | .settle id _ _ | .publish id _ | .retain id _ _ => some id
  | _ => none

/-- What an observer of the broker sees, in order. -/
inductive BrokerEvent where
  | submitted (id : String)
  | delivered (request : HostRequest)
  | cancelled (id : String)
  | accepted (id : String) (effects : EffectState)
  | published (id : String) (outcome : CapabilityOutcome)
  | retired (registrationId : String)
  | closed

structure BrokerWorld where
  state : BrokerState
  gates : EntryGates
  threads : List (List Action)
  events : List BrokerEvent

/-- What a section leads to: the new state, the sections it leaves for its call, or the end of the
call, and the events it shows. -/
structure Section where
  state : BrokerState
  next : Option (List Action)
  events : List BrokerEvent

namespace HostRequestBroker
variable (B : HostRequestBroker)

def requestCancelled : EmbeddedError := ⟨.cancelled, "host request cancelled"⟩

/-- The outcome of a request that was never dispatched. -/
def notStarted : CapabilityOutcome :=
  ⟨.error ⟨.cancelled, "host request cancelled before dispatch"⟩, .notStarted⟩

/-- Claims a retained completion; nothing is claimed twice. -/
def driveCompletion (s : BrokerState) (id : String) : Section :=
  match s.records.lookup id with
  | none => ⟨s, some [], []⟩
  | some record =>
    match record.phase, record.pendingOutcome with
    | .completing, some outcome =>
      match record.prepared with
      | none => ⟨s, none, []⟩
      | some prepared =>
        ⟨{ s with
            records := s.records.insert id { record with prepared := none, pendingOutcome := none } },
          some [.settle id prepared outcome], []⟩
    | _, _ => ⟨s, some [], []⟩

/-- Puts an unfinished completion back into its record. -/
def restore (s : BrokerState) (id : String) (prepared : PreparedCapability)
    (outcome : CapabilityOutcome) (next : Option (List Action)) : Section :=
  match s.records.lookup id with
  | none => ⟨s, none, []⟩
  | some record =>
    ⟨{ s with
        records := s.records.insert id
          { record with prepared := some prepared, pendingOutcome := some outcome } }, next, []⟩

def settle (s : BrokerState) (id : String) (prepared : PreparedCapability)
    (outcome : CapabilityOutcome) (a : Answers) : Section :=
  match a.poll with
  | .ok true => ⟨s, some [.publish id (authorized a outcome)], []⟩
  | .ok false => restore s id prepared outcome (some [])
  | .error _ => restore s id prepared outcome none

/-- The authority of a request that still owns its invocation. -/
def observe (s : BrokerState) (gates : EntryGates) (id : String) (a : Answers) : Section :=
  match s.records.lookup id with
  | none => ⟨s, none, []⟩
  | some record =>
    match record.prepared with
    | none => ⟨s, some [], []⟩
    | some prepared =>
      match a.authorize.bind fun _ =>
        if record.phase = .queued then withDispatchGate gates prepared.entry prepared.finalization
        else .ok () with
      | .ok _ => ⟨s, some [], []⟩
      | .error error => ⟨s, some [.cancel id error false], []⟩

/-- Requests cancellation; a request that was not dispatched is claimed and completed. -/
def cancel (s : BrokerState) (id : String) (error : EmbeddedError) (tolerant : Bool) : Section :=
  match s.records.lookup id with
  | none => ⟨s, if tolerant then some [] else none, []⟩
  | some record =>
    if record.phase = .completed then ⟨s, some [], []⟩ else
    let record := { record with cancellation := some (record.cancellation.getD error) }
    if record.phase ≠ .queued then
      ⟨{ s with records := s.records.insert id record }, some [], [.cancelled id]⟩
    else
      let s := { s with
        records := s.records.insert id { record with phase := .completing, prepared := none } }
      match record.prepared with
      | none => ⟨s, none, [.cancelled id]⟩
      | some _ =>
        ⟨{ s with ready := s.ready.filter (· ≠ id) }, some [.publish id notStarted], [.cancelled id]⟩

/-- Transfers completion ownership exactly once. -/
def accept (s : BrokerState) (id : String) (outcome : CapabilityOutcome) : Section :=
  match s.records.lookup id with
  | none => ⟨s, none, []⟩
  | some record =>
    match record.phase with
    | .dispatched =>
      let s := { s with
        records := s.records.insert id { record with phase := .completing, prepared := none } }
      match record.prepared with
      | none => ⟨s, none, []⟩
      | some prepared =>
        ⟨s, some [.retain id prepared outcome], [.accepted id outcome.effects]⟩
    | .queued | .completing | .completed => ⟨s, none, []⟩

def taking (s : BrokerState) (gates : EntryGates) (limit : ℕ) (a : Answers) : Section :=
  if limit = 0 then ⟨s, some [], []⟩ else
  match takeNext s gates a with
  | (s, .idle) => ⟨s, some [], []⟩
  | (s, .failed _) => ⟨s, none, []⟩
  | (s, .refused id error) => ⟨s, some [.cancel id error false, .taking limit], []⟩
  | (s, .delivered request) => ⟨s, some [.taking (limit - 1)], [.delivered request]⟩

/-- The waiter goes away: a completed record is removed, any other request is cancelled. -/
def abandon (s : BrokerState) (id : String) : Section :=
  match s.records.lookup id with
  | none => ⟨s, some [.cancel id requestCancelled true], []⟩
  | some record =>
    let s := { s with records := s.records.insert id { record with waiterAlive := false } }
    if record.phase = .completed then ⟨B.remove s id, some [], []⟩
    else ⟨s, some [.cancel id requestCancelled true], []⟩

def act (s : BrokerState) (gates : EntryGates) (a : Answers) : Action → Section
  | .maintain =>
    ⟨s, some ((s.records.entries.filter fun e =>
      e.2.phase = .completing ∧ e.2.pendingOutcome.isSome).map fun e => .drive e.1), []⟩
  | .drive id => driveCompletion s id
  | .settle id prepared outcome => settle s id prepared outcome a
  | .observe id => observe s gates id a
  | .cancel id error tolerant => cancel s id error tolerant
  | .publish id outcome =>
    match B.publish s id outcome with
    | (s, none) => ⟨s, none, []⟩
    | (s, some outcome) => ⟨s, some [], [.published id outcome]⟩
  | .accept id outcome => accept s id outcome
  | .retain id prepared outcome =>
    restore s id prepared (authorized a (B.validateOutcome prepared.entry outcome)) (some [])
  | .taking limit => taking s gates limit a
  | .scan registrationId =>
    ⟨s, some ((s.records.entries.filter fun e =>
      e.2.request.registrationId = registrationId ∧ e.2.phase = .queued).map fun e =>
        .cancel e.1 closed true), []⟩
  | .abandon id => B.abandon s id
  | .close => ⟨{ s with closing := true }, some (s.records.keys.map (.cancel · closed true)),
      [.closed]⟩

/-! ## Runs -/

end HostRequestBroker

inductive BrokerCall where
  | take (limit : ℕ)
  | status (id : String)
  | complete (id : String) (outcome : CapabilityOutcome)
  | poll (id : String)
  | cancel (id : String)
  | drop (id : String)
  | isDrained
  | close

/-- The sections of a call. -/
def BrokerCall.actions (B : HostRequestBroker) : BrokerCall → List Action
  | .take limit => if limit = 0 ∨ limit > B.maxRecords then [] else [.maintain, .taking limit]
  | .status id | .poll id => [.drive id, .observe id]
  | .complete id outcome => [.drive id, .observe id, .accept id outcome, .drive id]
  | .cancel id => [.cancel id HostRequestBroker.requestCancelled false]
  | .drop id => [.abandon id]
  | .isDrained => [.maintain]
  | .close => [.close]

/-- One step of a run: a submission, a new call, a section of a call that is under way, or a change of
the entry gates by the registry. -/
inductive BrokerStep where
  | submit (prepared : PreparedCapability) (answers : Answers)
  | call (call : BrokerCall)
  | turn (thread : ℕ) (answers : Answers)
  /-- `unregister`: the gate closes, then the queue is scanned. -/
  | unregister (registrationId : String)
  /-- `begin_shutdown` on one entry. -/
  | finalizationOnly (registrationId : String)

namespace HostRequestBroker
variable (B : HostRequestBroker)

def turn (w : BrokerWorld) (t : ℕ) (a : Answers) : BrokerWorld :=
  match w.threads[t]? with
  | some (action :: rest) =>
    let x := B.act w.state w.gates a action
    { w with
      state := x.state
      threads := w.threads.set t (match x.next with
        | some next => next ++ rest
        | none => [])
      events := w.events ++ x.events }
  | _ => w

def perform (w : BrokerWorld) : BrokerStep → BrokerWorld
  | .submit prepared a =>
    match B.submit w.state w.gates prepared a with
    | (state, .error _) => { w with state }
    | (state, .ok id) => { w with state, events := w.events ++ [.submitted id] }
  | .call call => { w with threads := w.threads ++ [call.actions B] }
  | .turn t a => B.turn w t a
  | .unregister registrationId =>
    { w with
      gates.closed := registrationId :: w.gates.closed
      threads := w.threads ++ [[.scan registrationId]]
      events := w.events ++ [.retired registrationId] }
  | .finalizationOnly registrationId =>
    { w with gates.finalizationOnly := registrationId :: w.gates.finalizationOnly }

def run (steps : List BrokerStep) : BrokerWorld :=
  steps.foldl B.perform ⟨new, ⟨[], []⟩, [], []⟩

end HostRequestBroker

end LuaSkills.Embedded
