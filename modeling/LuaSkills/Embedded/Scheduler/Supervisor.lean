import LuaSkills.Embedded.Scheduler.Select

/-!
# Completion and maintenance

The sections of the supervisor: rejection of expired calls, progress of a completion to its terminal
publication, retirement of idle sessions and instances and their closing operations. The supervisor
visits its records one after the other; here each visit is a section of its own, so that any other
section may come between two of them.
-/

namespace LuaSkills.Embedded.Scheduler

namespace SchedulerState
variable (s : SchedulerState)

def updateInstance (instanceId : Option String) (f : ScheduledReusable → Option ScheduledReusable) :
    Option (AssocMap String ScheduledReusable) :=
  match instanceId with
  | none => some s.reusableInstances
  | some id => s.reusableInstances.update? id f

/-- `remove`: a drained instance leaves with the reservation that it did not use. -/
def removeInstance (id : String) : Option SchedulerState := do
  let r ← s.reusableInstances.lookup id
  let s := { s with reusableInstances := s.reusableInstances.erase id }
  if r.finalizationReservation.isNone then return s
  let pool ← s.pools.lookup r.poolId
  s.releaseOperation pool.pluginId

/-! ## Rejection -/

/-- Why a queued call cannot run any more. -/
def expired (call : ScheduledCall) (check : EmbeddedResult Unit) : Option (Option EmbeddedError) := do
  if let .error e := check then return some e
  if s.closing then return some closed
  let pool ← s.pools.lookup call.request.poolId
  if pool.closed then return some closed
  match call.request.sessionId with
  | none => return none
  | some id =>
    let session ← s.sessions.lookup id
    return if session.closing then some closed else none

/-- The machine of a session that was never opened leaves its record. -/
def takeOpening (request : ScheduledRequest) (error : EmbeddedError) :
    Option (SchedulerState × Option ModuleLease) :=
  match request with
  | .openSession _ sessionId => do
    let session ← s.sessions.lookup sessionId
    let taken := { session with closing := true, error := session.error.or (some error), lease := none }
    return ({ s with sessions := s.sessions.insert sessionId taken }, session.lease)
  | _ => some (s, none)

/-- A completion of a call that did not run. -/
def unexecuted (call : ScheduledCall) (error : EmbeddedError) (lease : Option ModuleLease) :
    PendingCompletion where
  finalization := none
  retainedLease := lease
  cleaningStarted := false
  call
  result := .error error
  retirement := none
  effects := .notStarted
  dispatched := false
  candidate := none

def rejectExpired (pluginId : String) (index : ℕ) (check : EmbeddedResult Unit) :
    Option SchedulerState :=
  match (s.queues.lookup pluginId).bind (·[index]?) with
  | none => some s
  | some call => do
    match ← s.expired call check with
    | none => return s
    | some error =>
      let (s, call) ← s.takeCall pluginId index
      let (s, lease) ← s.takeOpening call.request error
      return { s with
        cleaningCount := s.cleaningCount + 1
        cleaning := s.cleaning ++ [unexecuted call error lease] }

/-! ## Closing operations -/

/-- Whether a closing operation of a pool has an execution slot. -/
def hasFinalizerSlot (poolId : String) : Option (EmbeddedResult Bool) := do
  let pool ← s.pools.lookup poolId
  let plugin ← s.plugins.lookup pool.pluginId
  if pool.active ≥ pool.pool.policy.maxRunningCalls ∨
      s.pluginActive pool.pluginId ≥ plugin.config.maxRunningCalls then
    return .ok false
  s.capacityAllowsExecution poolId

/-- The counters of a closing operation that spends its reservation. -/
def admitFinalizer (id poolId : String) : Option SchedulerState := do
  let pool ← s.pools.lookup poolId
  let plugins ← s.plugins.update? pool.pluginId fun p => do
    let reservedOperations ← checkedSub p.reservedOperations 1
    return { p with reservedOperations, operations := p.operations + 1 }
  let pools ← s.pools.update? poolId fun p => some { p with active := p.active + 1 }
  return { s with
    plugins, pools
    operationPlugins := s.operationPlugins.insert id pool.pluginId
    live := s.live ++ [id]
    cleaningCount := s.cleaningCount + 1 }

/-- The completion of a closing operation, which owns the machine from the start. -/
def closingCompletion (call : ScheduledCall) (lease : ModuleLease) (plan : ModuleFinalizer) :
    PendingCompletion where
  finalization := some ⟨lease, plan, false, none, false⟩
  retainedLease := none
  cleaningStarted := false
  call
  result := .ok .null
  retirement := none
  effects := .unknown
  dispatched := true
  candidate := none

end SchedulerState

namespace SchedulerCenter
variable (c : SchedulerCenter)

/-- `schedule` of a session; `answer` is what a new control and the registry say. -/
def scheduleSession (sessionId : String) (answer : EmbeddedResult Unit) :
    Option (SchedulerCenter × EmbeddedResult Bool) := do
  let session ← c.state.sessions.lookup sessionId
  match ← c.state.hasFinalizerSlot session.poolId with
  | .error e => return (c, .error e)
  | .ok false => return (c, .ok false)
  | .ok true =>
    let lease ← session.lease
    let plan ← lease.finalizationPlan
    let reservation ← session.finalizationReservation
    match c.operations.admitReserved reservation answer with
    | .error e => return (c, .error e)
    | .ok operations =>
      let id := reservation.id
      let call : ScheduledCall :=
        ⟨none, id, .closeSession session.poolId sessionId session.finalizationContext, 0⟩
      let scheduled := { session with
        finalizationReservation := none
        finalizationOperation := some id
        finalizationContext := ScheduledRequest.defaultContext
        lease := none
        active := some id
        unfinished := session.unfinished + 1 }
      let s ← c.state.admitFinalizer id session.poolId
      return ({ c with operations, state := { s with
        sessions := s.sessions.insert sessionId scheduled
        cleaning := s.cleaning ++ [SchedulerState.closingCompletion call lease plan] } }, .ok true)

def scheduleInstance (instanceId : String) (answer : EmbeddedResult Unit) :
    Option (SchedulerCenter × EmbeddedResult Bool) := do
  let r ← c.state.reusableInstances.lookup instanceId
  match ← c.state.hasFinalizerSlot r.poolId with
  | .error e => return (c, .error e)
  | .ok false => return (c, .ok false)
  | .ok true =>
    let lease ← r.lease
    let plan ← lease.finalizationPlan
    let reservation ← r.finalizationReservation
    match c.operations.admitReserved reservation answer with
    | .error e => return (c, .error e)
    | .ok operations =>
      let id := reservation.id
      let call : ScheduledCall :=
        ⟨some instanceId, id, .closeInstance r.poolId r.finalizationContext, 0⟩
      let scheduled := { r with
        finalizationReservation := none
        finalizationContext := ScheduledRequest.defaultContext
        lease := none
        active := some id }
      let s ← c.state.admitFinalizer id r.poolId
      return ({ c with operations, state := { s with
        reusableInstances := s.reusableInstances.insert instanceId scheduled
        cleaning := s.cleaning ++ [SchedulerState.closingCompletion call lease plan] } }, .ok true)

/-! ## Maintenance -/

/-- A session or instance of the pool `poolId` has to close. -/
def mustRetire (poolId : String) : Bool :=
  c.state.closing || (c.state.pools.lookup poolId).any (·.closed)

/-- The visit of `maintain` to a session, with the lease that it hands to retirement. -/
def maintainSession (sessionId : String) : SchedulerCenter × Option ModuleLease :=
  match c.state.sessions.lookup sessionId with
  | none => (c, none)
  | some session =>
    let closing := session.closing || c.mustRetire session.poolId
    let retired :=
      if closing ∧ session.active = none ∧ session.unfinished = 0 then
        session.lease.filter (·.finalizationPlan.isNone)
      else none
    let session :=
      if retired.isSome then { session with closing, lease := none, retiring := true }
      else { session with closing }
    ({ c with state := { c.state with
      sessions := c.state.sessions.insert sessionId session } }, retired)

def maintainInstance (instanceId : String) : SchedulerCenter × Option ModuleLease :=
  match c.state.reusableInstances.lookup instanceId with
  | none => (c, none)
  | some r =>
    let closing := r.closing || c.mustRetire r.poolId
    let retired :=
      if closing ∧ r.active = none then r.lease.filter (·.finalizationPlan.isNone) else none
    let r :=
      if retired.isSome then { r with closing, lease := none, retiring := true }
      else { r with closing }
    ({ c with state := { c.state with
      reusableInstances := c.state.reusableInstances.insert instanceId r } }, retired)

/-- The sessions for which `maintain` schedules a closing operation. -/
def finalizesSession (session : ScheduledSession) : Bool :=
  session.closing && session.active.isNone && session.unfinished = 0 &&
    session.lease.any (·.finalizationPlan.isSome)

def finalizesInstance (r : ScheduledReusable) : Bool :=
  r.closing && r.active.isNone && r.lease.any (·.finalizationPlan.isSome)

/-- The receipt of a lease that was finished. -/
def receipt : ModuleRelease → Option ℕ
  | .retiring vm => some vm
  | .noInstance => none

def retireSession (sessionId : String) (lease : ModuleLease) : Option SchedulerCenter := do
  let (pools, release) := c.pools.finish lease
  let sessions ← c.state.sessions.update? sessionId fun x =>
    some { x with retirement := receipt release, retiring := false }
  return { c with pools, state := { c.state with sessions } }

def retireInstance (instanceId : String) (lease : ModuleLease) : Option SchedulerCenter := do
  let (pools, release) := c.pools.finish lease
  let reusableInstances ← c.state.reusableInstances.update? instanceId fun r =>
    some { r with retirement := receipt release, retiring := false }
  return { c with pools, state := { c.state with reusableInstances } }

/-- Nothing is owed for a receipt. -/
def drained (retirement : Option ℕ) : Bool := retirement.all (· ∈ c.pools.completed)

/-- The last visit of `maintain` to a session. -/
def settleSession (sessionId : String) : Option SchedulerCenter := do
  let some session := c.state.sessions.lookup sessionId | return c
  if ¬ (session.closing ∧ session.active = none ∧ session.unfinished = 0 ∧ session.lease.isNone ∧
      ¬ session.retiring) then
    return c
  if ¬ c.drained session.retirement then
    return { c with state := { c.state with
      sessions := c.state.sessions.insert sessionId { session with closed := false } } }
  let settled := { session with
    closed := true
    finalizationContext := ScheduledRequest.defaultContext
    finalizationReservation := none }
  let s := { c.state with sessions := c.state.sessions.insert sessionId settled }
  if session.finalizationReservation.isNone then return { c with state := s }
  let pool ← s.pools.lookup session.poolId
  let state ← s.releaseOperation pool.pluginId
  return { c with state }

def pruneInstance (instanceId : String) : Option SchedulerCenter := do
  let some r := c.state.reusableInstances.lookup instanceId | return c
  if ¬ (r.closing ∧ r.active = none ∧ r.lease.isNone ∧ ¬ r.retiring ∧ c.drained r.retirement) then
    return c
  let state ← c.state.removeInstance instanceId
  return { c with state }

/-! ## Completion -/

structure CompletionAnswers where
  /-- `pending_phase`. -/
  pendingPhase : EmbeddedResult (Option OperationPhase)
  /-- `poll_advance` or `retry_advance`. -/
  advance : EmbeddedResult Bool
  /-- The preparation of a closing intent, its outcome or the terminal candidate. -/
  prepare : EmbeddedResult Unit
  /-- The error of a candidate that is prepared now. -/
  error : Option EmbeddedError
  /-- `poll_completion_checkpoint`. -/
  checkpoint : EmbeddedResult Bool
  /-- `publish_completion`. -/
  publish : EmbeddedResult Unit
  queuedHistory : Bool

inductive Progress where
  | pending (completion : PendingCompletion)
  /-- The closing export may run. -/
  | ready (completion : PendingCompletion)
  | published

/-- `checkpoint_failed`: without a queued history the runtime stops. -/
def storageFailed (id : String) (a : CompletionAnswers) : SchedulerCenter :=
  if a.queuedHistory then c.checkpointFailed id else c.requestClose

/-- An error of the owner; a busy one is met again in a later turn. -/
def ownerFailed (e : EmbeddedError) : SchedulerCenter :=
  if e.code = .busy then c else c.requestClose

/-- The decision to close that is frozen with the result. -/
def mustClose (call : ScheduledCall) : Option Bool := do
  if c.state.closing then return true
  let pool ← c.state.pools.lookup call.request.poolId
  if pool.closed then return true
  let session ← match call.request.sessionId with
    | none => some false
    | some id => (c.state.sessions.lookup id).map (·.closing)
  if session then return true
  match call.reusableInstance with
  | none => return false
  | some id => (c.state.reusableInstances.lookup id).map (·.closing)

def closeOwners (call : ScheduledCall) : Option SchedulerCenter := do
  let sessions ← c.state.updateSession call.request.sessionId fun x =>
    some { x with closing := true }
  let reusableInstances ← c.state.updateInstance call.reusableInstance fun r =>
    some { r with closing := true }
  return { c with state := { c.state with sessions, reusableInstances } }

def giveUp (x : PendingCompletion) (lease : ModuleLease) : SchedulerCenter × PendingCompletion :=
  let (pools, release) := c.pools.finish lease
  ({ c with pools }, { x with
    retainedLease := none
    retirement := (receipt release).or x.retirement })

def advanceFinalization (x : PendingCompletion) (closing : PendingFinalization)
    (a : CompletionAnswers) : SchedulerCenter × Progress :=
  match a.pendingPhase with
  | .error e => (c.ownerFailed e, .pending x)
  | .ok (some _) =>
    match a.advance with
    | .ok true => (c.checkpointRecovered x.call.id, .pending x)
    | .ok false => (c, .pending x)
    | .error _ => (c.storageFailed x.call.id a, .pending x)
  | .ok none =>
    if ¬ closing.intentPrepared then
      match a.prepare with
      | .error e => (c.ownerFailed e, .pending x)
      | .ok _ => (c, .pending { x with
          finalization := some { closing with intentPrepared := true }
          cleaningStarted := true })
    else if closing.outcome.isNone then (c, .ready x)
    else if ¬ closing.outcomePrepared then
      match a.prepare with
      | .error e => (c.ownerFailed e, .pending x)
      | .ok _ => (c, .pending { x with
          finalization := some { closing with outcomePrepared := true } })
    else
      let (pools, lease) := c.pools.closeLease closing.lease
      let (pools, release) := pools.finish lease
      ({ c with pools }, .pending { x with
        finalization := none
        retirement := receipt release
        call := { x.call with request := x.call.request.releaseValues } })

/-- The cleaning checkpoint, or one of an earlier phase that is still open. -/
def startCleaning (x : PendingCompletion) (a : CompletionAnswers) : SchedulerCenter × Progress :=
  match a.pendingPhase with
  | .error e => (c.ownerFailed e, .pending x)
  | .ok pending =>
    match a.advance with
    | .ok false => (c, .pending x)
    | .ok true =>
      (c.checkpointRecovered x.call.id, .pending { x with
        cleaningStarted := pending.getD .cleaning = .cleaning })
    | .error _ => (c.storageFailed x.call.id a, .pending x)

def releaseInstance (s : SchedulerState) (x : PendingCompletion) :
    Option (SchedulerState × Option ModuleLease) :=
  match x.call.reusableInstance with
  | none => some (s, x.retainedLease)
  | some id =>
    match x.retainedLease with
    | some lease => do
      let reusableInstances ← s.reusableInstances.update? id fun r =>
        some { r with active := none, lease := some lease }
      return ({ s with reusableInstances }, none)
    | none => do
      let s ← s.removeInstance id
      return (s, none)

def isOpenSession : ScheduledRequest → Bool
  | .openSession _ _ => true
  | _ => false

def releasedSession (x : PendingCompletion) (lease : Option ModuleLease)
    (session : ScheduledSession) : Option ScheduledSession := do
  let unfinished ← checkedSub session.unfinished 1
  let session := { session with unfinished }
  let session :=
    if x.dispatched then
      match lease with
      | some lease => { session with active := none, lease := some lease, opened := true }
      | none => { session with active := none, closing := true }
    else if isOpenSession x.call.request then { session with closing := true }
    else session
  return if session.closing then { session with error := session.error.or x.candidate.join }
    else session

/-- The lease that is left in a published completion, which is dropped. -/
def leftover (x : PendingCompletion) (lease : Option ModuleLease) : Option ModuleLease :=
  if x.call.request.sessionId.isSome ∧ x.dispatched then none else lease

def publishTerminal (x : PendingCompletion) : Option SchedulerCenter := do
  let s := c.state
  let cleaningCount ← checkedSub s.cleaningCount 1
  let pools ←
    if x.dispatched then
      s.pools.update? x.call.request.poolId fun p => do
        let active ← checkedSub p.active 1
        return { p with active }
    else some s.pools
  let s := { s with
    persistenceFailures := s.persistenceFailures.erase x.call.id
    live := s.live.erase x.call.id
    cleaningCount, pools }
  let (s, lease) ← releaseInstance s x
  let sessions ← s.updateSession x.call.request.sessionId (releasedSession x lease)
  let c := { c with operations := c.operations.publish x.call.id, state := { s with sessions } }
  return (leftover x lease).elim c c.dropLease

/-- The last part of a turn: the retirement barrier, the frozen candidate and its publication. -/
def concludeCompletion (x : PendingCompletion) (a : CompletionAnswers) :
    Option (SchedulerCenter × Progress) := do
  if ¬ c.drained x.retirement then return (c, .pending x)
  let x := { x with retirement := none }
  if let (none, .error e) := (x.candidate, a.prepare) then return (c.ownerFailed e, .pending x)
  let x := { x with candidate := some (x.candidate.getD a.error) }
  match a.checkpoint with
  | .ok false => return (c, .pending x)
  | .error _ => return (c.storageFailed x.call.id a, .pending x)
  | .ok true =>
    match a.publish with
    | .error _ => return (c.requestClose, .pending x)
    | .ok _ =>
      let c ← c.publishTerminal x
      return (c, .published)

/-- A turn behind the retry gate. -/
def proceed (x : PendingCompletion) (a : CompletionAnswers) : Option (SchedulerCenter × Progress) :=
  match x.finalization with
  | some closing => some (c.advanceFinalization x closing a)
  | none =>
    if ¬ x.cleaningStarted then some (c.startCleaning x a)
    else c.concludeCompletion x a

def passGate (x : PendingCompletion) (a : CompletionAnswers) : Option (SchedulerCenter × Progress) :=
  match c.state.persistenceFailures.lookup x.call.id with
  | some .waiting => some (c, .pending x)
  | some .requested =>
    proceed { c with state := { c.state with
      persistenceFailures := c.state.persistenceFailures.insert x.call.id .retrying } } x a
  | some .retrying | none => c.proceed x a

def complete (x : PendingCompletion) (a : CompletionAnswers) :
    Option (SchedulerCenter × Progress) :=
  match x.candidate, x.retainedLease with
  | none, some lease => do
    if (← c.mustClose x.call) ∧ lease.finalizationPlan.isNone then
      let closed ← c.closeOwners x.call
      let (c, x) := closed.giveUp x lease
      return (c, .pending x)
    c.passGate x a
  | _, _ => c.passGate x a

end SchedulerCenter

end LuaSkills.Embedded.Scheduler
