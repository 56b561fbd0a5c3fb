import LuaSkills.Embedded.Journal.Record
import LuaSkills.Embedded.Scheduler.State

/-!
# Registration, admission and closing

The sections of the runtime's public calls: registration of plugins, capacities and pools, revisions of
a capacity, admission of calls and sessions, closing and forgetting. A section returns the new center
with its result, or nothing when an `expect` fails or a counter underflows.
-/

namespace LuaSkills.Embedded.Scheduler

/-- What a section of a public call learns outside the scheduler. -/
structure Answers where
  /-- The gates before the lock: shutdown, the new control and the sizes of the values. -/
  submission : EmbeddedResult Unit
  /-- `control.check` of the request. -/
  control : EmbeddedResult Unit
  /-- The serialized size of the request. -/
  bytes : ℕ
  /-- The input contract and the projections of the request. -/
  values : EmbeddedResult Unit
  /-- The registry's own admission checks. -/
  admission : EmbeddedResult Unit
  /-- The registry's own checks of a reservation. -/
  reserve : EmbeddedResult Unit
  /-- Machines that were retired between the reads of a budget and its use. -/
  retired : List EmbeddedPoolManager.RetirementStep

namespace OperationRegistry
variable (r : OperationRegistry)

def issue (runtimeId : String) (answer : EmbeddedResult Unit) : EmbeddedResult (ℕ × String) := do
  answer
  let sequence ← okOr (checkedAdd r.sequence 1) (.internal "operation identity exhausted")
  return (sequence, IdentityKind.operation.render runtimeId sequence)

/-- `admit_module` and `admit_prewarm`. -/
def admitModule (runtimeId : String) (answer : EmbeddedResult Unit) :
    EmbeddedResult (OperationRegistry × String) := do
  let (sequence, id) ← r.issue runtimeId answer
  return (⟨sequence, r.records.insert id false⟩, id)

/-- `reserve_module`. -/
def reserve (runtimeId : String) (answer : EmbeddedResult Unit) :
    EmbeddedResult (OperationRegistry × OperationReservation) := do
  let (sequence, id) ← r.issue runtimeId answer
  return ({ r with sequence }, ⟨id⟩)

def admitReserved (reservation : OperationReservation) (answer : EmbeddedResult Unit) :
    EmbeddedResult OperationRegistry := do
  answer
  return { r with records := r.records.insert reservation.id false }

def forget (id : String) : EmbeddedResult OperationRegistry := do
  let terminal ← okOr (r.records.lookup id) (.notFound "operation record is unknown or expired")
  refuseIf (¬ terminal) (EmbeddedError.busy "operation has not finished execution and cleanup")
  return { r with records := r.records.erase id }

def publish (id : String) : OperationRegistry := { r with records := r.records.insert id true }

end OperationRegistry

/-! ## Writes -/

namespace SchedulerState
variable (s : SchedulerState)

def updateSession (sessionId : Option String) (f : ScheduledSession → Option ScheduledSession) :
    Option (AssocMap String ScheduledSession) :=
  match sessionId with
  | none => some s.sessions
  | some id => s.sessions.update? id f

def publishCall (id pluginId : String) (request : ScheduledRequest) (bytes : ℕ) : Option SchedulerState := do
  let plugins ← s.plugins.update? pluginId fun p =>
    some { p with queued := p.queued + 1, bytes := p.bytes + bytes, operations := p.operations + 1 }
  let pools ← s.pools.update? request.poolId fun p => some { p with queued := p.queued + 1 }
  let sessions ← s.updateSession request.sessionId fun x =>
    some { x with queued := x.queued + 1, unfinished := x.unfinished + 1 }
  return { s with
    plugins, pools, sessions
    operationPlugins := s.operationPlugins.insert id pluginId
    queued := s.queued + 1
    bytes := s.bytes + bytes
    live := s.live ++ [id]
    rotation := if pluginId ∈ s.queues then s.rotation else s.rotation ++ [pluginId]
    queues := s.queues.insert pluginId
      ((s.queues.lookup pluginId).getD [] ++ [⟨none, id, request, bytes⟩]) }

def reserveOperation (pluginId : String) : Option SchedulerState := do
  let plugins ← s.plugins.update? pluginId fun p =>
    some { p with reservedOperations := p.reservedOperations + 1 }
  return { s with plugins }

def releaseOperation (pluginId : String) : Option SchedulerState := do
  let plugins ← s.plugins.update? pluginId fun p => do
    let reservedOperations ← checkedSub p.reservedOperations 1
    return { p with reservedOperations }
  return { s with plugins }

/-- The pools `p` no longer accept calls. -/
def closePools (p : ScheduledPool → Bool) : SchedulerState :=
  { s with pools := s.pools.mapValues fun _ pool => if p pool then { pool with closed := true } else pool }

end SchedulerState

namespace SchedulerCenter
open SchedulerState (closed notFound pluginNotFound sessionNotFound)
variable (c : SchedulerCenter)

def config : ParentConfig := c.pools.config

/-! ## Admission -/

def queueCapacity : EmbeddedError := .capacity "embedded request queue capacity reached"

def pluginQueueCapacity : EmbeddedError :=
  .capacity "plugin queue or retained operation capacity reached"

/-- `enqueue`: all budgets are checked before the operation is published. -/
def enqueue (request : ScheduledRequest) (a : Answers) :
    Option (SchedulerCenter × EmbeddedResult String) := do
  let s := c.state
  if let .error e := a.control then return (c, .error e)
  if s.closing then return (c, .error closed)
  if let .error e := s.checkPersistenceAdmission then return (c, .error e)
  let some pool := s.pools.lookup request.poolId | return (c, .error notFound)
  if pool.closed then return (c, .error closed)
  if request.invocation.any (·.exportName ∉ pool.inputs) then
    return (c, .error (.invalid "module export is not declared"))
  if let .error e := a.values then return (c, .error e)
  if pool.queued ≥ pool.pool.policy.maxQueuedCalls ∨ s.queued ≥ c.config.maxQueuedCalls ∨
      a.bytes > c.config.maxQueuedBytes - s.bytes then
    return (c, .error queueCapacity)
  let plugin ← s.plugins.lookup pool.pluginId
  if plugin.closing then return (c, .error closed)
  let operations ← checkedSub plugin.config.maxOperations plugin.reservedOperations
  if plugin.queued ≥ plugin.config.maxQueuedCalls ∨
      a.bytes > plugin.config.maxQueuedBytes - plugin.bytes ∨ plugin.operations ≥ operations then
    return (c, .error pluginQueueCapacity)
  if let .error e := ← s.validateCapacityQueue request.poolId a.bytes then return (c, .error e)
  match c.operations.admitModule c.id a.admission with
  | .error e => return (c, .error e)
  | .ok (operations, id) =>
    let state ← s.publishCall id pool.pluginId request a.bytes
    return ({ c with operations, state }, .ok id)

def submit (request : EmbeddedCall) (a : Answers) : Option (SchedulerCenter × EmbeddedResult String) := do
  if let .error e := a.submission then return (c, .error e)
  let some pool := c.state.pools.lookup request.poolId | return (c, .error notFound)
  if pool.pool.policy.reuse = .session then
    return (c, .error (.invalid "session pools require an explicit session"))
  c.enqueue (.invoke request) a

def prewarmInstance (poolId : String) (context : Json) (a : Answers) :
    Option (SchedulerCenter × EmbeddedResult String) := do
  if let .error e := a.submission then return (c, .error e)
  let some pool := c.state.pools.lookup poolId | return (c, .error notFound)
  if pool.pool.policy.reuse ≠ .reusable then
    return (c, .error (.invalid "prewarm requires an explicitly reusable pool"))
  c.enqueue (.prewarm poolId context) a

def submitSession (sessionId exportName : String) (arguments context : Json) (a : Answers) :
    Option (SchedulerCenter × EmbeddedResult String) := do
  if let .error e := a.submission then return (c, .error e)
  let some session := c.state.sessions.lookup sessionId | return (c, .error sessionNotFound)
  if session.closing ∨ session.closed then return (c, .error closed)
  if ¬ session.opened then return (c, .error (.busy "session initialization is unfinished"))
  if let .error e := jsonSize a.bytes c.config.maxQueuedBytes then return (c, .error e)
  c.enqueue (.invokeSession sessionId ⟨session.poolId, exportName, arguments, context⟩) a

/-- The checks of `open_session` before the machine is reserved, with the pool. -/
def checkOpen (poolId : String) (a : Answers) : Option (EmbeddedResult ScheduledPool) := do
  let s := c.state
  if let .error e := a.submission then return .error e
  if s.closing then return .error closed
  if let .error e := s.checkPersistenceAdmission then return .error e
  if s.sessions.size ≥ c.config.maxSessions then
    return .error (.capacity "retained session capacity reached")
  let some pool := s.pools.lookup poolId | return .error notFound
  if pool.closed then return .error closed
  if pool.pool.policy.reuse ≠ .session then
    return .error (.invalid "pool does not declare session reuse")
  let plugin ← s.plugins.lookup pool.pluginId
  if plugin.closing then return .error closed
  if s.pluginSessions pool.pluginId ≥ plugin.config.maxSessions then
    return .error (.capacity "plugin retained session capacity reached")
  let operations ← checkedSub plugin.config.maxOperations plugin.reservedOperations
  if pool.pool.finalizer.isSome ∧ plugin.operations ≥ operations then
    return .error (.capacity "plugin operation retention capacity reached")
  return .ok pool

/-- A lease that a failed section gives up. -/
def dropLease (l : ModuleLease) : SchedulerCenter := { c with pools := (c.pools.finish l).1 }

/-- The closing record of a new session, if its pool declares one. -/
def reserveFinalization (pool : ScheduledPool) (a : Answers) :
    Option (SchedulerCenter × EmbeddedResult (Option OperationReservation)) := do
  if pool.pool.finalizer.isNone then return (c, .ok none)
  match c.operations.reserve c.id a.reserve with
  | .error e => return (c, .error e)
  | .ok (operations, reservation) =>
    let state ← c.state.reserveOperation pool.pluginId
    return ({ c with operations, state }, .ok (some reservation))

/-- The record of a session that was not initialized yet. -/
def newSession (poolId : String) (lease : ModuleLease) (reservation : Option OperationReservation) :
    ScheduledSession where
  finalizationReservation := reservation
  finalizationOperation := none
  finalizationContext := ScheduledRequest.defaultContext
  poolId
  lease := some lease
  active := none
  queued := 0
  unfinished := 0
  opened := false
  closing := false
  closed := false
  retiring := false
  retirement := none
  error := none

/-- `open_session` after the machine was reserved. -/
def openPrepared (pool : ScheduledPool) (lease : ModuleLease) (a : Answers) :
    Option (SchedulerCenter × EmbeddedResult (String × String)) := do
  let some sequence := checkedAdd c.state.sequence 1
    | return (c.dropLease lease, .error (.internal "session identity exhausted"))
  let c := { c with state := { c.state with sequence } }
  let sessionId := IdentityKind.session.render c.id sequence
  if let .error e := jsonSize a.bytes c.config.maxQueuedBytes then
    return (c.dropLease lease, .error e)
  match ← c.reserveFinalization pool a with
  | (c, .error e) => return (c.dropLease lease, .error e)
  | (c, .ok reservation) =>
    let poolId := pool.pool.group
    let opened := { c with state := { c.state with
      sessions := c.state.sessions.insert sessionId (newSession poolId lease reservation) } }
    match ← opened.enqueue (.openSession poolId sessionId) a with
    | (c, .ok id) => return (c, .ok (sessionId, id))
    | (c, .error e) =>
      -- No Lua code has run; the record and its reservation go away together.
      let state ← if reservation.isSome then c.state.releaseOperation pool.pluginId else some c.state
      let state := { state with sessions := state.sessions.erase sessionId }
      let c := { c with state }
      return (c.dropLease lease, .error e)

def openSession (poolId : String) (a : Answers) :
    Option (SchedulerCenter × EmbeddedResult (String × String)) := do
  match ← c.checkOpen poolId a with
  | .error e => return (c, .error e)
  | .ok pool =>
    match c.state.pluginAllowsAllocation c.pools poolId with
    | .error e => return (c, .error e)
    | .ok allowNew =>
      match ← (c.pools.during a.retired).prepareWithBudget pool.pool a.control true allowNew with
      | (pools, .error e) => return ({ c with pools }, .error e)
      | (pools, .ok lease) => openPrepared { c with pools } pool lease a

/-! ## Registration -/

def checkPlugin (pluginId : String) (config : EmbeddedPluginConfig) (a : Answers) :
    EmbeddedResult Unit := do
  let s := c.state
  config.validate c.config.toEmbeddedRuntimeConfig
  refuseIf (trimIsEmpty pluginId) (.invalid "plugin identity must be nonempty")
  a.submission
  refuseIf s.closing closed
  refuseIf (pluginId ∈ s.plugins) (.busy "plugin is already registered")
  refuseIf (s.plugins.size ≥ c.config.maxRegisteredPlugins)
    (.capacity "retained plugin capacity reached")

def registerPlugin (pluginId : String) (config : EmbeddedPluginConfig) (a : Answers) :
    SchedulerCenter × EmbeddedResult Unit :=
  match c.checkPlugin pluginId config a with
  | .error e => (c, .error e)
  | .ok _ =>
    ({ c with state := { c.state with
      plugins := c.state.plugins.insert pluginId ⟨config, 0, 0, 0, 0, false⟩ } }, .ok ())

/-- The checks of `register_capacity` before the physical registration, with the new sequence. -/
def checkCapacity (pluginId : String) (config : EmbeddedCapacityConfig) : EmbeddedResult ℕ := do
  let s := c.state
  refuseIf s.closing closed
  let plugin ← okOr (s.plugins.lookup pluginId) notFound
  refuseIf plugin.closing closed
  config.validate c.config.toEmbeddedRuntimeConfig plugin.config
  refuseIf (s.capacities.size ≥ c.config.maxRegisteredPools ∨
      s.capacities.countBy (fun x => x.pluginId = pluginId) ≥ plugin.config.maxRegisteredPools)
    (.capacity "retained capacity registration limit reached")
  let committed ← s.pluginCommitment c.pools pluginId none
  refuseIf (config.resources.minResidentVms > plugin.config.maxResidentVms - committed)
    (.capacity "capacity reservations exceed plugin resident budget")
  okOr (checkedAdd s.sequence 1) (.internal "capacity identity exhausted")

def registerCapacity (pluginId : String) (config : EmbeddedCapacityConfig) (a : Answers) :
    Option (SchedulerCenter × EmbeddedResult String) := do
  match c.checkCapacity pluginId config with
  | .error e => return (c, .error e)
  | .ok sequence =>
    let id := IdentityKind.capacity.render c.id sequence
    match ← (c.pools.during a.retired).registerCapacity id config.resources with
    | (pools, .error e) => return ({ c with pools }, .error e)
    | (pools, .ok _) =>
      return ({ c with pools, state := { c.state with
        sequence
        capacities := c.state.capacities.insert id ⟨pluginId, config, sequence, false⟩ } }, .ok id)

/-- The checks of `register_pool_with_binding` before the physical registration. -/
def checkPool (pluginId : String) (policy : PluginPoolConfig) (capacityId : Option String)
    (a : Answers) : EmbeddedResult ℕ := do
  let s := c.state
  policy.validate c.config.toEmbeddedRuntimeConfig
  a.submission
  refuseIf s.closing closed
  match capacityId with
  | some id => s.validateCapacityMember id pluginId policy
  | none => pure ()
  s.validatePluginPool c.pools pluginId policy
  refuseIf (s.pools.size ≥ c.config.maxRegisteredPools) (.capacity "retained pool capacity reached")
  okOr (checkedAdd s.sequence 1) (.internal "pool identity exhausted")

def registerPool (pluginId : String) (policy : PluginPoolConfig) (finalizer : Option ModuleFinalizer)
    (inputs : List String) (capacityId : Option String) (a : Answers) :
    Option (SchedulerCenter × EmbeddedResult String) := do
  match c.checkPool pluginId policy capacityId a with
  | .error e => return (c, .error e)
  | .ok sequence =>
    let id := IdentityKind.pool.render c.id sequence
    let pool : ModulePool := ⟨id, policy, finalizer⟩
    match ← (c.pools.during a.retired).createPool pool capacityId with
    | (pools, .error e) => return ({ c with pools }, .error e)
    | (pools, .ok _) =>
      return ({ c with pools, state := { c.state with
        sequence
        pools := c.state.pools.insert id ⟨inputs, pool, pluginId, capacityId, 0, 0, false⟩ } }, .ok id)

/-! ## Revision -/

def revisionConflict : EmbeddedError := .busy "capacity policy revision conflict"

/-- Replaces the policy of a capacity if the token is the current one. -/
def reviseCapacity (id expectedRevision : String) (config : EmbeddedCapacityConfig) (a : Answers) :
    Option (SchedulerCenter × EmbeddedResult String) := do
  let s := c.state
  let some capacity := s.capacities.lookup id | return (c, .error notFound)
  let plugin ← s.plugins.lookup capacity.pluginId
  if s.closing ∨ capacity.closing ∨ plugin.closing then return (c, .error closed)
  if capacity.policyRevision.repr ≠ expectedRevision then return (c, .error revisionConflict)
  if let .error e := config.validate c.config.toEmbeddedRuntimeConfig plugin.config then
    return (c, .error e)
  if capacity.config = config then return (c, .ok capacity.policyRevision.repr)
  let retireCached := config.resources.maxResidentVms < capacity.config.resources.maxResidentVms
  if config.resources.maxRunningCalls < capacity.config.resources.maxRunningCalls ∧
      s.capacityActive id > config.resources.maxRunningCalls then
    return (c, .error
      (.busy "dispatched operations must drain before lowering the execution limit"))
  match s.pluginCommitmentWithCapacity c.pools capacity.pluginId none
      (some (id, config.resources.minResidentVms)) with
  | .error e => return (c, .error e)
  | .ok commitment =>
    if commitment > plugin.config.maxResidentVms then
      return (c, .error (.capacity "revised reservations exceed plugin resident budget"))
    let some sequence := checkedAdd s.sequence 1
      | return (c, .error (.internal "capacity policy revision exhausted"))
    match ← (c.pools.during a.retired).reviseCapacity id config.resources with
    | (pools, .error e) => return ({ c with pools }, .error e)
    | (pools, .ok _) =>
      return ({ c with pools, state := { s with
        sequence
        capacities := s.capacities.insert id { capacity with config, policyRevision := sequence }
        -- Only a resident shrink invalidates the reusable cache of the members.
        reusableInstances := s.reusableInstances.mapValues fun _ r =>
          if retireCached ∧ (s.pools.lookup r.poolId).any (·.capacityId = some id) then
            { r with closing := true } else r } }, .ok sequence.repr)

/-! ## Closing -/

def closeSession (sessionId : String) : SchedulerCenter × EmbeddedResult Unit :=
  match c.state.sessions.lookup sessionId with
  | none => (c, .error sessionNotFound)
  | some session =>
    ({ c with state := { c.state with
      sessions := c.state.sessions.insert sessionId { session with closing := true } } }, .ok ())

def closePool (id : String) : SchedulerCenter × EmbeddedResult Unit :=
  match c.state.pools.lookup id with
  | none => (c, .error notFound)
  | some pool =>
    ({ c with state := { c.state with
      pools := c.state.pools.insert id { pool with closed := true } } }, .ok ())

def closeCapacity (id : String) : SchedulerCenter × EmbeddedResult Unit :=
  match c.state.capacities.lookup id with
  | none => (c, .error notFound)
  | some capacity =>
    let state := c.state.closePools fun pool => pool.capacityId = some id
    ({ c with state := { state with
      capacities := state.capacities.insert id { capacity with closing := true } } }, .ok ())

def closePlugin (id : String) : SchedulerCenter × EmbeddedResult Unit :=
  match c.state.plugins.lookup id with
  | none => (c, .error pluginNotFound)
  | some plugin =>
    let state := c.state.closePools fun pool => pool.pluginId = id
    ({ c with state := { state with
      plugins := state.plugins.insert id { plugin with closing := true } } }, .ok ())

/-- The physical part of a close, once the metadata says so. -/
def closePhysical (id : String) : SchedulerCenter :=
  if c.state.closing ∨ (c.state.pools.lookup id).all (·.closed) then
    { c with pools := c.pools.closePool id }
  else c

/-- `request_close`, and `fail` after an infrastructure failure. -/
def requestClose : SchedulerCenter := { c with state := { c.state with closing := true } }

/-! ## Forgetting -/

def forgetOperation (id : String) : Option (SchedulerCenter × EmbeddedResult Unit) := do
  let some pluginId := c.state.operationPlugins.lookup id
    | return (c, .error (.notFound "embedded operation is not retained"))
  match c.operations.forget id with
  | .error e => return (c, .error e)
  | .ok operations =>
    let plugins ← c.state.plugins.update? pluginId fun p => do
      let operations ← checkedSub p.operations 1
      return { p with operations }
    return ({ c with operations, state := { c.state with
      plugins, operationPlugins := c.state.operationPlugins.erase id } }, .ok ())

/-- `forget_pool`; its scan of drained instances is a step of its own. -/
def forgetPool (id : String) : SchedulerCenter × EmbeddedResult Unit :=
  let s := c.state
  match s.pools.lookup id with
  | none => (c, .error notFound)
  | some pool =>
    if ¬ pool.closed ∨ pool.queued ≠ 0 ∨ pool.active ≠ 0 ∨ c.pools.resident pool.pool.group ≠ 0 ∨
        s.sessions.countBy (fun x => x.poolId = id) ≠ 0 ∨
        s.reusableInstances.countBy (fun x => x.poolId = id) ≠ 0 then
      (c, .error (.busy "pool ownership has not drained"))
    else ({ c with state := { s with pools := s.pools.erase id } }, .ok ())

def forgetSession (sessionId : String) : SchedulerCenter × EmbeddedResult Unit :=
  match c.state.sessions.lookup sessionId with
  | none => (c, .error sessionNotFound)
  | some session =>
    if ¬ session.closed then (c, .error (.busy "session ownership has not drained"))
    else ({ c with state := { c.state with
      sessions := c.state.sessions.erase sessionId } }, .ok ())

def forgetCapacity (id : String) : Option (SchedulerCenter × EmbeddedResult Unit) := do
  let s := c.state
  let some capacity := s.capacities.lookup id | return (c, .error notFound)
  let plugin ← s.plugins.lookup capacity.pluginId
  if ¬ (capacity.closing ∨ s.closing ∨ plugin.closing) ∨
      s.pools.countBy (fun pool => pool.capacityId = some id) ≠ 0 then
    return (c, .error (.busy "capacity ownership has not drained"))
  match ← c.pools.unregisterCapacity id with
  | (pools, .error e) => return ({ c with pools }, .error e)
  | (pools, .ok _) =>
    return ({ c with pools, state := { s with capacities := s.capacities.erase id } }, .ok ())

def forgetPlugin (id : String) : SchedulerCenter × EmbeddedResult Unit :=
  let s := c.state
  match s.plugins.lookup id with
  | none => (c, .error pluginNotFound)
  | some plugin =>
    if (¬ plugin.closing ∧ ¬ s.closing) ∨ plugin.operations ≠ 0 ∨ plugin.reservedOperations ≠ 0 ∨
        s.pools.countBy (fun pool => pool.pluginId = id) ≠ 0 ∨
        s.capacities.countBy (fun x => x.pluginId = id) ≠ 0 then
      (c, .error (.busy "plugin ownership or retained records have not drained"))
    else ({ c with state := { s with plugins := s.plugins.erase id } }, .ok ())

/-! ## Checkpoints -/

def checkpointFailed (id : String) : SchedulerCenter :=
  { c with state := { c.state with
    persistenceFailures := c.state.persistenceFailures.insert id .waiting } }

def checkpointRecovered (id : String) : SchedulerCenter :=
  { c with state := { c.state with
    persistenceFailures := c.state.persistenceFailures.erase id } }

/-- `observe_shared_checkpoint_failures`, and a failure seen by `persistence_failure`. -/
def observeShared (failed : Bool) : SchedulerCenter :=
  { c with state := { c.state with sharedCheckpointFailed := failed } }

def retryCheckpoint (id : String) : SchedulerCenter :=
  match c.state.persistenceFailures.lookup id with
  | some .waiting =>
    { c with state := { c.state with
      persistenceFailures := c.state.persistenceFailures.insert id .requested } }
  | _ => c

end SchedulerCenter

end LuaSkills.Embedded.Scheduler
