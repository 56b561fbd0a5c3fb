import LuaSkills.Embedded.Broker.Runs

/-!
# The capability registry

Registrations live on a heap: the registry lists those it retains, and a snapshot keeps the others
reachable. Admission, the entry gate and the broker have a lock each, and a call goes through them in
separate sections; `Act` is one section, taken by any thread at any time. A call that was admitted owns
a permit until it is dropped. What happens outside, schemas, permissions, effect journals and
destructors, answers as it likes. `RegistryEvent`s record what happened, oldest first.
-/

namespace LuaSkills.Embedded

/-! ## Registrations -/

inductive CapabilityExecution where
  | native | queued
deriving DecidableEq

/-- The declared part of a registration that dispatch reads. -/
structure CapabilityDescriptor where
  name : String
  version : String
  execution : CapabilityExecution
  maxConcurrent : ℕ
  maxOutputBytes : ℕ
deriving DecidableEq

/-- A native callback is named by a number. -/
structure CapabilityRegistrationRequest where
  descriptor : CapabilityDescriptor
  native : Option ℕ

structure CapabilityRegistrationStatus where
  registrationId : String
  name : String
  accepting : Bool
  inFlight : ℕ
  drained : Bool
deriving DecidableEq

structure EntryState where
  descriptor : CapabilityDescriptor
  accepting : Bool
  finalizationOnly : Bool
  running : ℕ
  releasing : Bool
  native : Option ℕ

namespace EntryState

def registered (request : CapabilityRegistrationRequest) : EntryState where
  descriptor := request.descriptor
  accepting := true
  finalizationOnly := false
  running := 0
  releasing := false
  native := request.native

/-- Whether a closed registration gives its callback away now. -/
def retires (e : EntryState) : Bool := !e.accepting && e.running = 0 && e.native.isSome

/-- Takes the callback of a closed registration without handlers out of the lock. -/
def retire (e : EntryState) : EntryState :=
  if e.retires then { e with releasing := true, native := none } else e

def close (e : EntryState) : EntryState := { e with accepting := false }.retire

def drained (e : EntryState) : Bool :=
  !e.accepting && e.running = 0 && e.native.isNone && !e.releasing

def status (e : EntryState) (id : String) : CapabilityRegistrationStatus where
  registrationId := id
  name := e.descriptor.name
  accepting := e.accepting && !e.finalizationOnly
  inFlight := e.running
  drained := e.drained

/-- The gate that admission and dispatch check. -/
def opensFor (e : EntryState) (finalization : Bool) : Bool :=
  e.accepting && (!e.finalizationOnly || finalization)

/-- The part of the registration that the broker reads. -/
def entry (e : EntryState) (id : String) : CapabilityEntry where
  id := id
  name := e.descriptor.name
  version := e.descriptor.version
  maxOutputBytes := e.descriptor.maxOutputBytes

end EntryState

/-! ## Calls and tasks -/

inductive CallStage where
  /-- Past `admit`, before the dispatch gate or the queue. -/
  | admitted
  /-- The gate let it through and its effect began; the callback runs next. -/
  | dispatching
  | calling
  /-- The broker owns it under a request identity. -/
  | submitted (requestId : String)
  /-- Its invocation ended and its callback clone is gone; the permit is dropped next. -/
  | leaving
deriving DecidableEq

/-- An admitted call with its permit and its clone of the callback. -/
structure AdmittedCall where
  entryId : String
  finalization : Bool
  native : Option ℕ
  stage : CallStage

inductive UnregisterStage where
  | closing
  | releasing
  | retiring
  | scanning (thread : ℕ)

/-- A call of the registry under way, or the destructor that a permit started. -/
inductive RegistryTask where
  | unregister (id : String) (stage : UnregisterStage)
  | beginShutdown (remaining : List String)
  /-- `close_and_poll` in the call that closes the broker. -/
  | closeBroker (remaining : List String) (thread : ℕ)
  | closeAndPoll (remaining : List String) (releasing : Option String) (drained : Bool)
  | dropNative (id : String)

/-- The registration whose callback a task is destroying. -/
def RegistryTask.destroys : RegistryTask → Option String
  | .unregister id .releasing => some id
  | .closeAndPoll _ releasing _ => releasing
  | .dropNative id => some id
  | _ => none

inductive RegistryEvent where
  | admitted (call : ℕ) (entryId : String) (finalization : Bool)
  | passedGate (call : ℕ) (entryId : String)
  | started (call : ℕ) (entryId : String)
  | released (call : ℕ)
  | unregistered (status : CapabilityRegistrationStatus)
  | reported (status : CapabilityRegistrationStatus)
  | shutdownBegun
  | broker (event : BrokerEvent)

/-! ## The world -/

structure RegistryState where
  closing : Bool
  sequence : ℕ
  active : AssocMap String String
  entries : List String

/-- The limits of a registry and its broker. -/
structure CapabilityRegistry where
  runtimeId : String
  maxRegisteredCapabilities : ℕ
  limit : ℕ
  broker : HostRequestBroker

structure RegistryWorld where
  registry : RegistryState
  heap : AssocMap String EntryState
  /-- Handlers of all registrations. -/
  running : ℕ
  calls : AssocMap ℕ AdmittedCall
  nextCall : ℕ
  tasks : AssocMap ℕ RegistryTask
  nextTask : ℕ
  broker : BrokerWorld
  /-- A permit was dropped while a counter was zero. -/
  underflowed : Bool
  log : List RegistryEvent

/-- Whether a call on the broker has ended. -/
def BrokerWorld.ended (w : BrokerWorld) (thread : ℕ) : Bool :=
  (w.threads[thread]?).any List.isEmpty

namespace RegistryWorld

def new : RegistryWorld where
  registry := { closing := false, sequence := 0, active := ∅, entries := [] }
  heap := ∅
  running := 0
  calls := ∅
  nextCall := 0
  tasks := ∅
  nextTask := 0
  broker := ⟨HostRequestBroker.new, ⟨[], []⟩, [], []⟩
  underflowed := false
  log := []

def record (w : RegistryWorld) (event : RegistryEvent) : RegistryWorld :=
  { w with log := w.log ++ [event] }

/-- The broker moves on, and its new events join the log. -/
def withBroker (w : RegistryWorld) (broker : BrokerWorld) : RegistryWorld :=
  { w with
    broker := broker
    log := w.log ++ (broker.events.drop w.broker.events.length).map .broker }

def spawn (w : RegistryWorld) (task : RegistryTask) : RegistryWorld :=
  { w with tasks := w.tasks.insert w.nextTask task, nextTask := w.nextTask + 1 }

def closeGate (w : RegistryWorld) (id : String) : RegistryWorld :=
  w.withBroker { w.broker with
    gates.closed := id :: w.broker.gates.closed
    events := w.broker.events ++ [.retired id] }

/-- The locked section of `CapabilityEntry::close`. -/
def closeEntry (w : RegistryWorld) (id : String) (e : EntryState) : RegistryWorld :=
  { w with heap := w.heap.insert id e.close }.closeGate id

/-- The destructor of a callback returned. -/
def endRelease (w : RegistryWorld) (id : String) : RegistryWorld :=
  { w with heap := w.heap.adjust id fun e => { e with releasing := false } }

end RegistryWorld

/-! ## The sections -/

/-- One section. Answers of the outside stand where the code asks. -/
inductive RegistryAct where
  | register (requests : List CapabilityRegistrationRequest) (compiled : EmbeddedResult Unit)
  | status (id : String)
  | unregister (id : String)
  | beginShutdown
  | closeAndPoll
  | forget (id : String)
  | admission (id : String) (finalization : Bool)
  /-- What follows admission fails. -/
  | giveUp (call : ℕ)
  | dispatch (call : ℕ) (begin : EmbeddedResult Unit)
  | invoke (call : ℕ)
  | finish (call : ℕ)
  | submit (call : ℕ) (effectId : Option String) (caller : CapabilityCaller) (arguments : Json)
      (answers : Answers)
  /-- The broker gave the invocation of a request up. -/
  | surrendered (call : ℕ)
  | dropPermit (call : ℕ)
  | broker (call : BrokerCall)
  | turn (thread : ℕ) (answers : Answers)
  | task (task : ℕ)

namespace CapabilityRegistry
variable (R : CapabilityRegistry)

open RegistryWorld

/-- The checks of `register`, before and under the publication lock. -/
def checkRegister (w : RegistryWorld) (requests : List CapabilityRegistrationRequest)
    (compiled : EmbeddedResult Unit) : EmbeddedResult Unit := do
  refuseIf (requests = []) (.invalid "capability registration batch is empty")
  refuseIf (requests.length > R.maxRegisteredCapabilities)
    (.capacity "capability registration batch exceeds capacity")
  requests.forM fun request =>
    refuseIf (¬ (request.descriptor.execution = .native ↔ request.native.isSome))
      (.invalid "capability callback does not match its execution transport")
  compiled
  refuseIf (w.registry.closing = true) ⟨.closed, "capability registry is closed"⟩
  refuseIf (requests.length > R.maxRegisteredCapabilities - w.registry.entries.length)
    (.capacity "capability registration capacity reached")
  refuseIf (¬ (requests.map (·.descriptor.name)).Nodup ∨
      ∃ request ∈ requests, request.descriptor.name ∈ w.registry.active)
    (.busy "capability name is already registered")
  let _ ← okOr (checkedAdd w.registry.sequence requests.length)
    (.internal "capability identity exhausted")

/-- Publishes one checked registration. -/
def publish (w : RegistryWorld) (request : CapabilityRegistrationRequest) : RegistryWorld :=
  let sequence := w.registry.sequence + 1
  let id := IdentityKind.capability.render R.runtimeId sequence
  { w with
    registry := { w.registry with
      sequence := sequence
      active := w.registry.active.insert request.descriptor.name id
      entries := w.registry.entries ++ [id] }
    heap := w.heap.insert id (.registered request) }

def checkUnregister (w : RegistryWorld) (id : String) : EmbeddedResult RegistryState := do
  refuseIf (id ∉ w.registry.entries) (.notFound "capability identity is unknown or expired")
  let e ← okOr (w.heap.lookup id) (.notFound "capability identity is unknown or expired")
  if w.registry.active.lookup e.descriptor.name = some id then
    let revision ← okOr (checkedAdd w.registry.sequence 1) (.internal "capability identity exhausted")
    return { w.registry with
      active := w.registry.active.erase e.descriptor.name
      sequence := revision }
  return w.registry

/-- `admit`: both counters move, or neither. -/
def admitEntry (w : RegistryWorld) (id : String) (e : EntryState) (finalization : Bool) :
    EmbeddedResult RegistryWorld := do
  refuseIf (e.opensFor finalization = false) ⟨.closed, "capability registration is closed"⟩
  refuseIf (R.limit ≤ w.running ∨ e.descriptor.maxConcurrent ≤ e.running)
    (.capacity "capability execution capacity reached")
  return { w with
    running := w.running + 1
    heap := w.heap.insert id { e with running := e.running + 1 }
    calls := w.calls.insert w.nextCall {
      entryId := id
      finalization := finalization
      native := e.native
      stage := .admitted }
    nextCall := w.nextCall + 1 }.record (.admitted w.nextCall id finalization)

/-- A call moves to another stage. The callback clone goes with the invocation. -/
def toStage (w : RegistryWorld) (call : ℕ) (c : AdmittedCall) (stage : CallStage) : RegistryWorld :=
  { w with
    calls := w.calls.insert call { c with
      stage := stage
      native := if stage = .leaving then none else c.native } }

/-- The destructor of a permit, and the callback it takes with it. -/
def dropPermit (w : RegistryWorld) (call : ℕ) (c : AdmittedCall) (e : EntryState) : RegistryWorld :=
  let left : EntryState := { e with running := e.running - 1 }
  let w := { w with
    underflowed := w.underflowed || w.running = 0 || e.running = 0
    running := w.running - 1
    heap := w.heap.insert c.entryId left.retire
    calls := w.calls.erase call }.record (.released call)
  if left.retires then w.spawn (.dropNative c.entryId) else w

def ownsInvocation (w : BrokerWorld) (requestId : String) : Bool :=
  (w.state.records.lookup requestId).any (fun r => r.prepared.isSome) ||
    w.threads.any fun thread => thread.any fun
      | .settle id _ _ | .retain id _ _ => id = requestId
      | _ => false

def advance (w : RegistryWorld) (k : ℕ) : RegistryTask → Option RegistryWorld
  | .unregister id .closing => do
    let e ← w.heap.lookup id
    let next := if { e with accepting := false }.retires then .releasing else .retiring
    return { w.closeEntry id e with tasks := w.tasks.insert k (.unregister id next) }
  | .unregister id .releasing =>
    some { w.endRelease id with tasks := w.tasks.insert k (.unregister id .retiring) }
  | .unregister id .retiring =>
    some { w with
      broker := { w.broker with threads := w.broker.threads ++ [[.scan id]] }
      tasks := w.tasks.insert k (.unregister id (.scanning w.broker.threads.length)) }
  | .unregister id (.scanning thread) =>
    if w.broker.ended thread then do
      let e ← w.heap.lookup id
      return { w with tasks := w.tasks.erase k }.record (.unregistered (e.status id))
    else none
  | .beginShutdown [] => some ({ w with tasks := w.tasks.erase k }.record .shutdownBegun)
  | .beginShutdown (id :: remaining) => do
    let e ← w.heap.lookup id
    return { w with
      heap := w.heap.insert id { e with finalizationOnly := true }
      broker := { w.broker with gates.finalizationOnly := id :: w.broker.gates.finalizationOnly }
      tasks := w.tasks.insert k (.beginShutdown remaining) }
  | .closeBroker remaining thread =>
    if w.broker.ended thread then
      some { w with tasks := w.tasks.insert k (.closeAndPoll remaining none true) }
    else none
  | .closeAndPoll remaining (some id) drained => do
    let w := w.endRelease id
    let e ← w.heap.lookup id
    return { w with tasks := w.tasks.insert k (.closeAndPoll remaining none (drained && e.drained)) }
  | .closeAndPoll [] none _ => some { w with tasks := w.tasks.erase k }
  | .closeAndPoll (id :: remaining) none drained => do
    let e ← w.heap.lookup id
    let next :=
      if { e with accepting := false }.retires then RegistryTask.closeAndPoll remaining (some id) drained
      else .closeAndPoll remaining none (drained && e.close.drained)
    return { w.closeEntry id e with tasks := w.tasks.insert k next }
  | .dropNative id => some { w.endRelease id with tasks := w.tasks.erase k }

/-- One section. A refusal leaves the world as it is; `none` means that no thread can take the
section. -/
def step (w : RegistryWorld) : RegistryAct → Option RegistryWorld
  | .register requests compiled =>
    match R.checkRegister w requests compiled with
    | .error _ => some w
    | .ok _ => some (requests.foldl R.publish w)
  | .status id =>
    if id ∈ w.registry.entries then
      (w.heap.lookup id).map fun e => w.record (.reported (e.status id))
    else some w
  | .unregister id =>
    match checkUnregister w id with
    | .error _ => some w
    | .ok registry => some ({ w with registry }.spawn (.unregister id .closing))
  | .beginShutdown =>
    some ({ w with
      registry := { w.registry with closing := true, active := ∅ } }.spawn
        (.beginShutdown w.registry.entries))
  | .closeAndPoll =>
    some (({ w with
      registry := { w.registry with closing := true, active := ∅ } }.withBroker
        (R.broker.perform w.broker (.call .close))).spawn
          (.closeBroker w.registry.entries w.broker.threads.length))
  | .forget id => do
    if id ∈ w.registry.entries then
      let e ← w.heap.lookup id
      if e.drained then
        return { w with
          registry := { w.registry with entries := w.registry.entries.filter (· ≠ id) } }
      return w
    return w
  | .admission id finalization => do
    let e ← w.heap.lookup id
    match R.admitEntry w id e finalization with
    | .ok w => return w
    | .error _ => return w
  | .giveUp call => do
    let c ← w.calls.lookup call
    if c.stage = .admitted then return toStage w call c .leaving else none
  | .dispatch call begin => do
    let c ← w.calls.lookup call
    let e ← w.heap.lookup c.entryId
    if c.stage = .admitted ∧ e.descriptor.execution = .native then
      if e.opensFor c.finalization = true ∧ begin.isOk then
        return (toStage w call c .dispatching).record (.passedGate call c.entryId)
      else return toStage w call c .leaving
    else none
  | .invoke call => do
    let c ← w.calls.lookup call
    if c.stage = .dispatching then
      return (toStage w call c .calling).record (.started call c.entryId)
    else none
  | .finish call => do
    let c ← w.calls.lookup call
    if c.stage = .calling then return toStage w call c .leaving else none
  | .submit call effectId caller arguments answers => do
    let c ← w.calls.lookup call
    let e ← w.heap.lookup c.entryId
    if c.stage = .admitted ∧ e.descriptor.execution = .queued then
      let prepared : PreparedCapability :=
        { finalization := c.finalization
          entry := e.entry c.entryId
          effectId := effectId
          caller := caller
          arguments := arguments }
      let submitted := R.broker.perform w.broker (.submit prepared answers)
      let stage := match (R.broker.submit w.broker.state w.broker.gates prepared answers).2 with
        | .ok requestId => CallStage.submitted requestId
        | .error _ => .leaving
      return (toStage w call c stage).withBroker submitted
    else none
  | .surrendered call => do
    let c ← w.calls.lookup call
    match c.stage with
    | .submitted requestId =>
      if ownsInvocation w.broker requestId then none else return toStage w call c .leaving
    | _ => none
  | .dropPermit call => do
    let c ← w.calls.lookup call
    let e ← w.heap.lookup c.entryId
    if c.stage = .leaving then return dropPermit w call c e else none
  | .broker call => some (w.withBroker (R.broker.perform w.broker (.call call)))
  | .turn thread answers => some (w.withBroker (R.broker.perform w.broker (.turn thread answers)))
  | .task k => do
    let t ← w.tasks.lookup k
    advance w k t

def run (w : RegistryWorld) : List RegistryAct → Option RegistryWorld
  | [] => some w
  | a :: acts => (R.step w a).bind fun w' => run w' acts

end CapabilityRegistry

end LuaSkills.Embedded
