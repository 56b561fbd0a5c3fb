import LuaSkills.Embedded.Identity
import LuaSkills.Embedded.Operation.Snapshot
import LuaSkills.Embedded.Scheduler.Pool

/-!
# The state of the scheduler

The metadata behind the scheduler's lock: pools, plugins and capacities with their counters, the queues
of calls and the rotation of plugins, fixed sessions, reusable instances and the completions that wait
for cleanup. `SchedulerCenter` adds what the sections under the lock reach: the physical pools and the
registry of operations.
-/

namespace LuaSkills.Embedded.Scheduler

/-! ## Policies -/

structure EmbeddedPluginConfig where
  maxRegisteredPools : ℕ
  maxSessions : ℕ
  maxResidentVms : ℕ
  maxRunningCalls : ℕ
  maxQueuedCalls : ℕ
  maxQueuedBytes : ℕ
  maxOperations : ℕ
deriving DecidableEq

def EmbeddedPluginConfig.validate (c : EmbeddedPluginConfig) (parent : EmbeddedRuntimeConfig) :
    EmbeddedResult Unit := do
  parent.validate
  refuseIf (∃ p ∈ [(c.maxRegisteredPools, parent.maxRegisteredPools),
      (c.maxSessions, parent.maxSessions), (c.maxResidentVms, parent.maxResidentVms),
      (c.maxRunningCalls, parent.maxRunningCalls), (c.maxQueuedCalls, parent.maxQueuedCalls),
      (c.maxQueuedBytes, parent.maxQueuedBytes), (c.maxOperations, parent.maxOperations)],
      p.1 = 0 ∨ p.1 > p.2)
    (.invalid "plugin budget is outside the parent limit")
  refuseIf (c.maxRunningCalls > c.maxResidentVms ∨ c.maxRunningCalls > c.maxOperations ∨
      c.maxQueuedCalls > c.maxOperations)
    (.invalid "plugin execution and retention budgets are inconsistent")

def EmbeddedPluginConfig.validatePool (c : EmbeddedPluginConfig) (policy : PluginPoolConfig) :
    EmbeddedResult Unit :=
  refuseIf (policy.maxResidentVms > c.maxResidentVms ∨ policy.maxRunningCalls > c.maxRunningCalls ∨
      policy.maxQueuedCalls > c.maxQueuedCalls)
    (.invalid "execution domain exceeds its plugin budget")

structure EmbeddedCapacityConfig where
  resources : VmCapacityConfig
  maxQueuedCalls : ℕ
  maxQueuedBytes : ℕ
deriving DecidableEq

def EmbeddedCapacityConfig.validate (c : EmbeddedCapacityConfig) (parent : EmbeddedRuntimeConfig)
    (plugin : EmbeddedPluginConfig) : EmbeddedResult Unit := do
  plugin.validate parent
  c.resources.validate parent
  refuseIf (c.resources.maxResidentVms > plugin.maxResidentVms ∨
      c.resources.maxRunningCalls > plugin.maxRunningCalls ∨ c.maxQueuedCalls = 0 ∨
      c.maxQueuedCalls > plugin.maxQueuedCalls ∨ c.maxQueuedBytes = 0 ∨
      c.maxQueuedBytes > plugin.maxQueuedBytes)
    (.invalid "capacity limits are outside the plugin budget")

/-! ## Requests -/

/-- An owned request of a business call. -/
structure EmbeddedCall where
  poolId : String
  exportName : String
  arguments : Json
  context : Json

inductive ScheduledRequest where
  | closeInstance (poolId : String) (context : Json)
  | closeSession (poolId sessionId : String) (context : Json)
  | invoke (call : EmbeddedCall)
  | prewarm (poolId : String) (context : Json)
  | openSession (poolId sessionId : String)
  | invokeSession (sessionId : String) (call : EmbeddedCall)

namespace ScheduledRequest

/-- The context of a session that was opened and not called. -/
def defaultContext : Json := .object []

def poolId : ScheduledRequest → String
  | .invoke call | .invokeSession _ call => call.poolId
  | .prewarm poolId _ | .openSession poolId _ | .closeSession poolId _ _ | .closeInstance poolId _ =>
    poolId

def sessionId : ScheduledRequest → Option String
  | .invoke _ | .prewarm _ _ | .closeInstance _ _ => none
  | .openSession _ sessionId | .invokeSession sessionId _ | .closeSession _ sessionId _ =>
    some sessionId

def invocation : ScheduledRequest → Option EmbeddedCall
  | .invoke call | .invokeSession _ call => some call
  | _ => none

def isPrewarm : ScheduledRequest → Bool
  | .prewarm _ _ => true
  | _ => false

def context : ScheduledRequest → Option Json
  | .invoke call | .invokeSession _ call => some call.context
  | .prewarm _ context | .closeSession _ _ context | .closeInstance _ context => some context
  | .openSession _ _ => none

/-- Drops the application values and keeps the identities. -/
def releaseValues : ScheduledRequest → ScheduledRequest
  | .invoke call => .invoke { call with arguments := .null, context := defaultContext }
  | .invokeSession sessionId call =>
    .invokeSession sessionId { call with arguments := .null, context := defaultContext }
  | .prewarm poolId _ => .prewarm poolId defaultContext
  | .closeSession poolId sessionId _ => .closeSession poolId sessionId defaultContext
  | .closeInstance poolId _ => .closeInstance poolId defaultContext
  | .openSession poolId sessionId => .openSession poolId sessionId

end ScheduledRequest

/-- Unique operation ownership. -/
structure ScheduledCall where
  reusableInstance : Option String
  id : String
  request : ScheduledRequest
  bytes : ℕ

def ScheduledCall.domain (call : ScheduledCall) : String × Option String :=
  (call.request.poolId, call.request.sessionId)

/-! ## Completions -/

/-- The machine and the plan of a closing call. -/
structure PendingFinalization where
  lease : ModuleLease
  plan : ModuleFinalizer
  intentPrepared : Bool
  outcome : Option (EmbeddedResult Json)
  outcomePrepared : Bool

/-- A completion that cannot become terminal before its machine is retired and its evidence sealed.
`candidate` is the frozen terminal candidate of the operation's owner, with its error. -/
structure PendingCompletion where
  finalization : Option PendingFinalization
  retainedLease : Option ModuleLease
  cleaningStarted : Bool
  call : ScheduledCall
  result : EmbeddedResult Json
  retirement : Option ℕ
  effects : EffectState
  dispatched : Bool
  candidate : Option (Option EmbeddedError)

/-! ## Records -/

structure ScheduledPool where
  /-- The declared exports. -/
  inputs : List String
  pool : ModulePool
  pluginId : String
  capacityId : Option String
  queued : ℕ
  active : ℕ
  closed : Bool

structure ScheduledPlugin where
  config : EmbeddedPluginConfig
  queued : ℕ
  bytes : ℕ
  operations : ℕ
  reservedOperations : ℕ
  closing : Bool

structure ScheduledCapacity where
  pluginId : String
  config : EmbeddedCapacityConfig
  policyRevision : ℕ
  closing : Bool

/-- A closing record that was reserved before initialization; it carries the operation's identity. -/
structure OperationReservation where
  id : String

structure ScheduledSession where
  finalizationReservation : Option OperationReservation
  finalizationOperation : Option String
  finalizationContext : Json
  poolId : String
  lease : Option ModuleLease
  active : Option String
  queued : ℕ
  unfinished : ℕ
  opened : Bool
  closing : Bool
  closed : Bool
  retiring : Bool
  retirement : Option ℕ
  error : Option EmbeddedError

structure ScheduledReusable where
  finalizationReservation : Option OperationReservation
  finalizationContext : Json
  poolId : String
  lease : Option ModuleLease
  active : Option String
  closing : Bool
  retirement : Option ℕ
  retiring : Bool

/-- An instance that a call may borrow. -/
def ScheduledReusable.idle (r : ScheduledReusable) : Bool :=
  !r.closing && r.active.isNone && r.lease.isSome

inductive CheckpointRetryState where
  | waiting | requested | retrying
deriving DecidableEq

/-- The metadata behind the scheduler's lock. The controls of live operations are left to the answers
of `control.check`, so `live` is the identities alone. The maps of the source are walked by key and
these in the order of insertion, which decides only among candidates that pass the same test. -/
structure SchedulerState where
  reusableInstances : AssocMap String ScheduledReusable
  finalizing : List PendingCompletion
  sharedCheckpointFailed : Bool
  persistenceFailures : AssocMap String CheckpointRetryState
  cleaningCount : ℕ
  closing : Bool
  sequence : ℕ
  pools : AssocMap String ScheduledPool
  plugins : AssocMap String ScheduledPlugin
  capacities : AssocMap String ScheduledCapacity
  operationPlugins : AssocMap String String
  sessions : AssocMap String ScheduledSession
  queues : AssocMap String (List ScheduledCall)
  rotation : List String
  queued : ℕ
  bytes : ℕ
  live : List String
  cleaning : List PendingCompletion

/-- The registry of operations: issued identities and, per retained record, whether it is terminal. -/
structure OperationRegistry where
  sequence : ℕ
  records : AssocMap String Bool

structure SchedulerCenter where
  id : String
  pools : EmbeddedPoolManager
  operations : OperationRegistry
  state : SchedulerState

namespace SchedulerState

def empty : SchedulerState :=
  ⟨∅, [], false, ∅, 0, false, 0, ∅, ∅, ∅, ∅, ∅, ∅, [], 0, 0, [], []⟩

variable (s : SchedulerState) (m : EmbeddedPoolManager)

/-! ## Reads -/

def checkPersistenceAdmission : EmbeddedResult Unit :=
  refuseIf (s.persistenceFailures.size ≠ 0 ∨ s.sharedCheckpointFailed)
    (EmbeddedError.busy "runtime persistence requires explicit checkpoint recovery")

def pluginActive (pluginId : String) : ℕ :=
  s.pools.sumBy fun _ pool => if pool.pluginId = pluginId then pool.active else 0

def owner (poolId : String) : Option String := (s.pools.lookup poolId).map (·.pluginId)

def pluginSessions (pluginId : String) : ℕ :=
  s.sessions.countBy fun session => s.owner session.poolId = some pluginId

def capacityActive (id : String) : ℕ :=
  s.pools.sumBy fun _ pool => if pool.capacityId = some id then pool.active else 0

/-- The calls of all queues. -/
def calls : List ScheduledCall := s.queues.entries.flatMap fun e => e.2

def capacityQueue (id : String) : ℕ × ℕ :=
  let calls := s.calls.filter fun call =>
    (s.pools.lookup call.request.poolId).any (·.capacityId = some id)
  (calls.length, (calls.map (·.bytes)).sum)

def overflow (message : String) (total charge : ℕ) : EmbeddedResult ℕ :=
  okOr (checkedAdd total charge) (.internal message)

/-- Residency of a capacity, retirement included. -/
def capacityResident (id : String) : EmbeddedResult ℕ :=
  s.pools.entries.foldlM (fun total entry =>
    if entry.2.capacityId = some id then
      overflow "capacity residency overflow" total (m.resident entry.2.pool.group)
    else pure total) 0

/-- Charges of all owners of a plugin; the requesting pool may spend its own owner's guarantee, and
`replacement` stands for a minimum that is about to be revised. -/
def pluginCommitmentWithCapacity (pluginId : String) (requestingPool : Option String)
    (replacement : Option (String × ℕ)) : EmbeddedResult ℕ := do
  let requestingCapacity := requestingPool.bind fun id => (s.pools.lookup id).bind (·.capacityId)
  let committed ← s.pools.entries.foldlM (fun committed entry =>
    if entry.2.pluginId = pluginId ∧ entry.2.capacityId = none then
      overflow "plugin commitment overflow" committed
        (if requestingPool = some entry.1 then m.resident entry.2.pool.group
          else m.guarantee entry.2.pool)
    else pure committed) 0
  s.capacities.entries.foldlM (fun committed entry =>
    if entry.2.pluginId = pluginId then do
      let resident ← s.capacityResident m entry.1
      overflow "plugin commitment overflow" committed
        (if requestingCapacity = some entry.1 then resident
          else max resident ((replacement.filter (·.1 = entry.1)).elim
            entry.2.config.resources.minResidentVms (·.2)))
    else pure committed) committed

def pluginCommitment (pluginId : String) (requestingPool : Option String) : EmbeddedResult ℕ :=
  s.pluginCommitmentWithCapacity m pluginId requestingPool none

def notFound : EmbeddedError := .notFound "embedded pool identity is unknown"

def pluginNotFound : EmbeddedError := .notFound "embedded plugin is not registered"

def sessionNotFound : EmbeddedError := .notFound "embedded session not found"

def closed : EmbeddedError := ⟨.closed, "embedded runtime or pool is closed"⟩

def pluginAllowsAllocation (poolId : String) : EmbeddedResult Bool := do
  let pool ← okOr (s.pools.lookup poolId) notFound
  let plugin ← okOr (s.plugins.lookup pool.pluginId) pluginNotFound
  if plugin.closing then return false
  return (← s.pluginCommitment m pool.pluginId (some poolId)) < plugin.config.maxResidentVms

/-- Whether the capacity of a pool has an execution slot left. -/
def capacityAllowsExecution (poolId : String) : Option (EmbeddedResult Bool) :=
  match s.pools.lookup poolId with
  | none => some (.error notFound)
  | some pool =>
    match pool.capacityId with
    | none => some (.ok true)
    | some id => do
      let capacity ← s.capacities.lookup id
      return .ok (s.capacityActive id < capacity.config.resources.maxRunningCalls)

def capacityIdle (id : String) : ℕ :=
  s.reusableInstances.countBy fun r =>
    r.idle && (s.pools.lookup r.poolId).any (·.capacityId = some id)

def poolIdle (poolId : String) : ℕ :=
  s.reusableInstances.countBy fun r => r.poolId = poolId && r.idle

def validateCapacityQueue (poolId : String) (bytes : ℕ) : Option (EmbeddedResult Unit) :=
  match s.pools.lookup poolId with
  | none => some (.error notFound)
  | some pool =>
    match pool.capacityId with
    | none => some (.ok ())
    | some id => do
      let capacity ← s.capacities.lookup id
      if capacity.closing then return .error closed
      let (queued, retained) := s.capacityQueue id
      return refuseIf (queued ≥ capacity.config.maxQueuedCalls ∨
          bytes > capacity.config.maxQueuedBytes - retained)
        (.capacity "capacity request queue limit reached")

def validateCapacityMember (id pluginId : String) (policy : PluginPoolConfig) :
    EmbeddedResult Unit := do
  let capacity ← okOr (s.capacities.lookup id) notFound
  refuseIf (capacity.pluginId ≠ pluginId) (.invalid "capacity and module plugin ownership differ")
  refuseIf capacity.closing closed
  refuseIf (policy.kind ≠ capacity.config.resources.kind ∨ policy.minResidentVms ≠ 0 ∨
      policy.maxResidentVms > capacity.config.resources.maxResidentVms ∨
      policy.maxRunningCalls > capacity.config.resources.maxRunningCalls ∨
      policy.maxQueuedCalls > capacity.config.maxQueuedCalls)
    (.invalid "module policy conflicts with its capacity owner")

def validatePluginPool (pluginId : String) (policy : PluginPoolConfig) : EmbeddedResult Unit := do
  let plugin ← okOr (s.plugins.lookup pluginId) pluginNotFound
  refuseIf plugin.closing closed
  plugin.config.validatePool policy
  refuseIf (s.pools.countBy (fun pool => pool.pluginId = pluginId) ≥ plugin.config.maxRegisteredPools)
    (.capacity "plugin retained pool capacity reached")
  let committed ← s.pluginCommitment m pluginId none
  refuseIf (policy.minResidentVms > plugin.config.maxResidentVms - committed)
    (.capacity "dedicated reservations exceed plugin resident capacity")

end SchedulerState

end LuaSkills.Embedded.Scheduler
