import LuaSkills.Embedded.Scheduler.Admission

/-!
# Dispatch

`select` walks the plugins in rotation and, in each queue, the first call of every domain. A call is
taken when its pool, its capacity and its plugin have an execution slot and a machine is there for it:
the session's own lease, an idle or new reusable instance, or a new machine for a single call. Looking
for a machine may mark idle instances for retirement; nothing else changes until a call is taken.
-/

namespace LuaSkills.Embedded.Scheduler

/-- What dispatch learns outside the scheduler. -/
structure DispatchAnswers where
  /-- `control.check` of an operation. -/
  check : String → EmbeddedResult Unit
  /-- An instance was idle for longer than the time its pool allows. -/
  elapsed : String → Bool
  /-- The registry's own checks of a reservation. -/
  reserve : EmbeddedResult Unit
  /-- Machines that were retired between the reads of the budgets of an operation and their use. -/
  retired : String → List EmbeddedPoolManager.RetirementStep

/-! ## Reusable instances -/

namespace SchedulerState
variable (s : SchedulerState)

/-- Marks up to `n` instances that satisfy `p`, in the order of the map. -/
def markClosing (p : String → ScheduledReusable → Bool) (n : ℕ) : SchedulerState :=
  let marked := ((s.reusableInstances.entries.filter fun e => p e.1 e.2).take n).map (·.1)
  { s with reusableInstances := s.reusableInstances.mapValues fun id r =>
      if id ∈ marked then { r with closing := true } else r }

/-- How many idle instances of a pool may leave: the minimum of the pool stays, and so does the
minimum of its capacity. -/
def removable (poolId : String) (pool : ScheduledPool) : Option ℕ :=
  let surplus := s.poolIdle poolId - pool.pool.policy.minResidentVms
  match pool.capacityId with
  | none => some surplus
  | some id => do
    let capacity ← s.capacities.lookup id
    return min surplus (s.capacityIdle id - capacity.config.resources.minResidentVms)

/-- `expire`: idle instances leave after their time. -/
def expire (elapsed : String → Bool) (poolId : String) : Option SchedulerState := do
  let pool ← s.pools.lookup poolId
  if pool.pool.policy.idleTtlMs.isNone then return s
  let removable ← s.removable poolId pool
  return s.markClosing (fun id r => r.poolId = poolId && r.idle && elapsed id) removable

/-- Whether `reclaim` may evict from the pool `poolId` for a request of a pool with the owners
`pluginId` and `capacityId`. -/
def evictable (pluginId : String) (capacityId : Option String) (pluginLimited capacityLimited : Bool)
    (poolId : String) (pool : ScheduledPool) : Option Bool := do
  if (pluginLimited ∧ pool.pluginId ≠ pluginId) ∨ (capacityLimited ∧ pool.capacityId ≠ capacityId) then
    return false
  if s.poolIdle poolId ≤ pool.pool.policy.minResidentVms then return false
  match pool.capacityId with
  | none => return true
  | some id =>
    if some id = capacityId then return true
    let capacity ← s.capacities.lookup id
    return s.capacityIdle id > capacity.config.resources.minResidentVms

/-- The first pool with an instance to evict. -/
def victim (evictable : String → ScheduledPool → Option Bool) :
    List (Sigma fun _ : String => ScheduledPool) → Option (Option String)
  | [] => some none
  | e :: rest => do
    if ← evictable e.1 e.2 then return some e.1
    victim evictable rest

/-- Whether the capacity of a pool is physically full. -/
def capacityLimited (m : EmbeddedPoolManager) (pool : ScheduledPool) : Option (EmbeddedResult Bool) :=
  match pool.capacityId with
  | none => some (.ok false)
  | some id => do
    let capacity ← s.capacities.lookup id
    match s.capacityResident m id with
    | .error e => return .error e
    | .ok resident => return .ok (decide (resident ≥ capacity.config.resources.maxResidentVms))

/-- `reclaim`: one idle instance of the limiting owner is marked. -/
def reclaim (m : EmbeddedPoolManager) (poolId : String) :
    Option (SchedulerState × EmbeddedResult Bool) := do
  let some requester := s.pools.lookup poolId | return (s, .error notFound)
  match s.pluginAllowsAllocation m poolId with
  | .error e => return (s, .error e)
  | .ok allowed =>
    match ← s.capacityLimited m requester with
    | .error e => return (s, .error e)
    | .ok capacityLimited =>
      match ← victim (s.evictable requester.pluginId requester.capacityId (!allowed) capacityLimited)
          s.pools.entries with
      | none => return (s, .ok false)
      | some id => return (s.markClosing (fun _ r => r.poolId = id && r.idle) 1, .ok true)

/-- The first idle instance of a pool. -/
def idleInstance (poolId : String) : Option (String × ScheduledReusable × ModuleLease) :=
  match s.reusableInstances.entries.find? fun e => e.2.poolId = poolId && e.2.idle with
  | some e => e.2.lease.map fun lease => (e.1, e.2, lease)
  | none => none

/-- The record of an instance that was just allocated for an operation. -/
def newReusable (poolId operationId : String) (context : Json)
    (reservation : Option OperationReservation) : ScheduledReusable where
  finalizationReservation := reservation
  finalizationContext := if reservation.isSome then context else ScheduledRequest.defaultContext
  poolId
  lease := none
  active := some operationId
  closing := false
  retirement := none
  retiring := false

/-! ## The queue -/

def takeCall (pluginId : String) (index : ℕ) : Option (SchedulerState × ScheduledCall) := do
  let queue ← s.queues.lookup pluginId
  let call ← queue[index]?
  let rest := queue.eraseIdx index
  let queued ← checkedSub s.queued 1
  let bytes ← checkedSub s.bytes call.bytes
  let plugins ← s.plugins.update? pluginId fun p => do
    let queued ← checkedSub p.queued 1
    let bytes ← checkedSub p.bytes call.bytes
    return { p with queued, bytes }
  let pools ← s.pools.update? call.request.poolId fun p => do
    let queued ← checkedSub p.queued 1
    return { p with queued }
  let sessions ← s.updateSession call.request.sessionId fun x => do
    let queued ← checkedSub x.queued 1
    return { x with queued }
  return ({ s with
    queues := if rest = [] then s.queues.erase pluginId else s.queues.insert pluginId rest
    rotation := if rest = [] then s.rotation.filter (· ≠ pluginId) else s.rotation
    queued, bytes, plugins, pools, sessions }, call)

end SchedulerState

namespace SchedulerCenter
variable (c : SchedulerCenter)

/-- `prepare` after no idle instance was found: a new machine, or nothing under physical pressure. -/
def prepareNew (poolId operationId : String) (context : Json) (a : DispatchAnswers) :
    Option (SchedulerCenter × EmbeddedResult (Option (ModuleLease × String))) := do
  match c.state.pluginAllowsAllocation c.pools poolId with
  | .error e => return (c, .error e)
  | .ok allowNew =>
    let pool ← c.state.pools.lookup poolId
    let plugin ← c.state.plugins.lookup pool.pluginId
    let operations ← checkedSub plugin.config.maxOperations plugin.reservedOperations
    if pool.pool.finalizer.isSome ∧ plugin.operations ≥ operations then
      return (c, .error (.capacity "plugin operation capacity cannot reserve reusable finalization"))
    match ← (c.pools.during (a.retired operationId)).prepareWithBudget pool.pool (a.check operationId) true allowNew with
    | (pools, .error e) =>
      let c := { c with pools }
      return (c, if e.code = .capacityExceeded then .ok none else .error e)
    | (pools, .ok lease) =>
      let c := { c with pools }
      if pool.pool.finalizer.isNone then
        return ({ c with state := { c.state with
          reusableInstances := c.state.reusableInstances.insert lease.instanceId
            (SchedulerState.newReusable poolId operationId context none) } },
          .ok (some (lease, lease.instanceId)))
      match c.operations.reserve c.id a.reserve with
      | .error e => return (c.dropLease lease, .error e)
      | .ok (operations, reservation) =>
        let state ← c.state.reserveOperation pool.pluginId
        return ({ c with operations, state := { state with
          reusableInstances := state.reusableInstances.insert lease.instanceId
            (SchedulerState.newReusable poolId operationId context (some reservation)) } },
          .ok (some (lease, lease.instanceId)))

/-- `prepare` of a reusable pool: claims idle state or reserves a new machine. -/
def prepare (poolId operationId : String) (context : Json) (a : DispatchAnswers)
    (allowCached : Bool) :
    Option (SchedulerCenter × EmbeddedResult (Option (ModuleLease × String))) := do
  if let .error e := a.check operationId then return (c, .error e)
  let state ← c.state.expire a.elapsed poolId
  let c := { c with state }
  match if allowCached then state.idleInstance poolId else none with
  | some (id, r, lease) =>
    return ({ c with state := { state with
      reusableInstances := state.reusableInstances.insert id
        { r with
          finalizationContext :=
            if r.finalizationReservation.isSome then context else r.finalizationContext
          active := some operationId
          lease := none } } }, .ok (some (lease, id)))
  | none => c.prepareNew poolId operationId context a

/-! ## Scanning -/

inductive Found where
  /-- The lease of the call's own session. -/
  | session
  | machine (lease : ModuleLease) (instanceId : Option String)
  | refused (error : EmbeddedError)

def hasSlot (call : ScheduledCall) (a : DispatchAnswers) : Option (EmbeddedResult Bool) := do
  let pool ← c.state.pools.lookup call.request.poolId
  if pool.closed ∨ (a.check call.id) ≠ .ok () ∨ pool.active ≥ pool.pool.policy.maxRunningCalls then
    return .ok false
  c.state.capacityAllowsExecution call.request.poolId

/-- The machine for a call without a session; `none` under physical pressure. -/
def findMachine (call : ScheduledCall) (pool : ScheduledPool) (a : DispatchAnswers)
    (allowNew : Bool) :
    Option (SchedulerCenter × EmbeddedResult (Option (ModuleLease × Option String))) := do
  let prewarm := call.request.isPrewarm
  let context ← call.request.context
  if pool.pool.policy.reuse = .reusable then
    if prewarm ∧ c.pools.resident pool.pool.group ≥ pool.pool.policy.maxResidentVms then
      return (c, .error (.capacity "prewarm cannot add a resident to a full pool"))
    match ← c.prepare call.request.poolId call.id context a (!prewarm) with
    | (c, .error e) => return (c, .error e)
    | (c, .ok found) => return (c, .ok (found.map fun x => (x.1, some x.2)))
  else
    let pools := c.pools.during (a.retired call.id)
    match ← pools.prepareWithBudget pool.pool (a.check call.id) false allowNew with
    | (pools, .ok lease) => return ({ c with pools }, .ok (some (lease, none)))
    | (pools, .error e) =>
      let c := { c with pools }
      return (c, if e.code = .capacityExceeded then .ok none else .error e)

/-- What a call without a session finds. -/
def considerMachine (call : ScheduledCall) (a : DispatchAnswers) (reclaimed : Bool) :
    Option (SchedulerCenter × Bool × EmbeddedResult (Option Found)) := do
  let pool ← c.state.pools.lookup call.request.poolId
  match c.state.pluginAllowsAllocation c.pools call.request.poolId with
  | .error e => return (c, reclaimed, .error e)
  | .ok allowNew =>
    match ← c.findMachine call pool a allowNew with
    | (c, .error e) => return (c, reclaimed, .ok (some (.refused e)))
    | (c, .ok (some (lease, instanceId))) =>
      return (c, reclaimed, .ok (some (.machine lease instanceId)))
    | (c, .ok none) =>
      -- A full pool cannot benefit from evicting the cache of another one.
      if reclaimed ∨ c.pools.resident pool.pool.group ≥ pool.pool.policy.maxResidentVms then
        return (c, reclaimed, .ok none)
      match ← c.state.reclaim c.pools call.request.poolId with
      | (state, .error e) => return ({ c with state }, reclaimed, .error e)
      | (state, .ok reclaimed) => return ({ c with state }, reclaimed, .ok none)

/-- One call of a scan: `none` leaves it queued. `reclaimed` is whether this scan evicted already. -/
def consider (call : ScheduledCall) (a : DispatchAnswers) (reclaimed : Bool) :
    Option (SchedulerCenter × Bool × EmbeddedResult (Option Found)) := do
  match ← c.hasSlot call a with
  | .error e => return (c, reclaimed, .error e)
  | .ok false => return (c, reclaimed, .ok none)
  | .ok true =>
    match call.request.sessionId with
    | some sessionId =>
      let session ← c.state.sessions.lookup sessionId
      let found := if session.closing ∨ session.active.isSome then none else some Found.session
      return (c, reclaimed, .ok found)
    | none => c.considerMachine call a reclaimed

/-- Scans a queue from `index` on, the first call of each domain only. -/
def scanQueue (a : DispatchAnswers) : List ScheduledCall → ℕ → List (String × Option String) →
    SchedulerCenter → Bool → Option (SchedulerCenter × Bool × EmbeddedResult (Option (ℕ × Found)))
  | [], _, _, c, reclaimed => some (c, reclaimed, .ok none)
  | call :: rest, index, visited, c, reclaimed =>
    if call.domain ∈ visited then scanQueue a rest (index + 1) visited c reclaimed
    else do
      match ← c.consider call a reclaimed with
      | (c, reclaimed, .error e) => return (c, reclaimed, .error e)
      | (c, reclaimed, .ok (some found)) => return (c, reclaimed, .ok (some (index, found)))
      | (c, reclaimed, .ok none) => scanQueue a rest (index + 1) (call.domain :: visited) c reclaimed

/-- The queue of one plugin, unless the plugin is closing or has no execution slot. -/
def scanPlugin (a : DispatchAnswers) (pluginId : String) (c : SchedulerCenter) (reclaimed : Bool) :
    Option (SchedulerCenter × Bool × EmbeddedResult (Option (ℕ × Found))) := do
  let plugin ← c.state.plugins.lookup pluginId
  if plugin.closing ∨ c.state.pluginActive pluginId ≥ plugin.config.maxRunningCalls then
    return (c, reclaimed, .ok none)
  let queue ← c.state.queues.lookup pluginId
  scanQueue a queue 0 [] c reclaimed

/-- A call that was found: its place in the rotation, its plugin and its place in the queue. -/
structure Hit where
  rotationIndex : ℕ
  pluginId : String
  index : ℕ
  found : Found

def scanRotation (a : DispatchAnswers) : List String → ℕ → SchedulerCenter → Bool →
    Option (SchedulerCenter × EmbeddedResult (Option Hit))
  | [], _, c, _ => some (c, .ok none)
  | pluginId :: rest, rotationIndex, c, reclaimed => do
    match ← scanPlugin a pluginId c reclaimed with
    | (c, _, .error e) => return (c, .error e)
    | (c, _, .ok (some (index, found))) => return (c, .ok (some ⟨rotationIndex, pluginId, index, found⟩))
    | (c, reclaimed, .ok none) => scanRotation a rest (rotationIndex + 1) c reclaimed

/-! ## Taking a call -/

inductive Dispatch where
  | ready (call : ScheduledCall) (lease : ModuleLease)
  | rejected (call : ScheduledCall) (error : EmbeddedError)

def claimSession (s : SchedulerState) (call : ScheduledCall) :
    Option (SchedulerState × EmbeddedResult ModuleLease) := do
  let sessionId ← call.request.sessionId
  let session ← s.sessions.lookup sessionId
  match session.lease with
  | none => return (s, .error (.internal "idle session lost its lease"))
  | some lease =>
    let finalizationContext := match session.finalizationReservation, call.request.invocation with
      | some _, some request => request.context
      | _, _ => session.finalizationContext
    let claimed := { session with lease := none, active := some call.id, finalizationContext }
    return ({ s with sessions := s.sessions.insert sessionId claimed }, .ok lease)

def addActive (s : SchedulerState) (poolId : String) : Option SchedulerState := do
  let pools ← s.pools.update? poolId fun p => some { p with active := p.active + 1 }
  return { s with pools }

def dispatch (hit : Hit) : Option (SchedulerCenter × EmbeddedResult Dispatch) := do
  let rotated := { c.state with rotation := c.state.rotation.rotate (hit.rotationIndex + 1) }
  let (s, call) ← rotated.takeCall hit.pluginId hit.index
  match hit.found with
  | .refused e => return ({ c with state := s }, .ok (.rejected call e))
  | .machine lease instanceId =>
    let state ← addActive s call.request.poolId
    return ({ c with state }, .ok (.ready { call with reusableInstance := instanceId } lease))
  | .session =>
    match ← claimSession s call with
    | (s, .error e) => return ({ c with state := s }, .error e)
    | (s, .ok lease) =>
      let state ← addActive s call.request.poolId
      return ({ c with state }, .ok (.ready call lease))

def select (a : DispatchAnswers) : Option (SchedulerCenter × EmbeddedResult (Option Dispatch)) := do
  match ← scanRotation a c.state.rotation 0 c false with
  | (c, .error e) => return (c, .error e)
  | (c, .ok none) => return (c, .ok none)
  | (c, .ok (some hit)) =>
    match ← c.dispatch hit with
    | (c, .error e) => return (c, .error e)
    | (c, .ok dispatch) => return (c, .ok (some dispatch))

end SchedulerCenter

end LuaSkills.Embedded.Scheduler
