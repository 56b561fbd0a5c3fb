import LuaSkills.Embedded.Scheduler.Supervisor

/-!
# Executors

What one fixed executor does with the work it took: it builds, initializes and calls a machine, or runs
its closing export, and then pushes a completion. Everything between the two sections of the scheduler
runs outside its lock, so each permit of the governor is a step of its own.
-/

namespace LuaSkills.Embedded.Scheduler

/-- Where `invoke` stands; a permit is held in three of its stages. -/
inductive ExecutionStage where
  | starting
  | allocating (permit : ExecutionPermit)
  | allocated
  | initializing (permit : ExecutionPermit)
  | initialized
  | invoking (permit : ExecutionPermit)
  | returned (result : EmbeddedResult Json)

structure Execution where
  call : ScheduledCall
  lease : ModuleLease
  stage : ExecutionStage

inductive Worker where
  | idle
  | executing (x : Execution)
  | finalizing (completion : PendingCompletion) (permit : Option ExecutionPermit)
  | pushing (completion : PendingCompletion) (newlyDispatched : Bool)

/-- What the machine and the owner of the operation answer to a step of an executor. -/
structure WorkerAnswers where
  /-- The outcome of the code that ran, or of the checks before it. -/
  outcome : EmbeddedResult Json
  /-- `can_finalize` of the module afterwards. -/
  finalizable : Bool
  /-- The size of the result. -/
  sized : EmbeddedResult Unit

/-- What a step adds to the history of the system. -/
inductive WorkerEvent where
  /-- The machine of a reservation was built. -/
  | built (vm : ℕ)
  /-- The governor refused an execution permit. -/
  | refused (vm : ℕ) (error : EmbeddedError)

def Execution.return (x : Execution) (result : EmbeddedResult Json) : Execution :=
  { x with stage := .returned result }

/-- `instance_id` or `session_id` of a lifecycle call. -/
def Execution.lifecycleValue (x : Execution) : Json :=
  match x.call.request.sessionId with
  | none => .object [("instance_id", .string x.lease.instanceId)]
  | some id => .object [("session_id", .string id)]

namespace SchedulerCenter
variable (c : SchedulerCenter)

def poolClosed (lease : ModuleLease) : Bool :=
  (c.pools.registrations.lookup lease.pool.group).all (·.closed)

def beginExecution (x : Execution) (next : ExecutionPermit → ExecutionStage) :
    Option (SchedulerCenter × Execution × List WorkerEvent) := do
  match ← c.pools.beginExecution x.lease.vm with
  | (pools, .ok permit) => return ({ c with pools }, { x with stage := next permit }, [])
  | (pools, .error e) =>
    return ({ c with pools }, x.return (.error e), [.refused x.lease.vm e])

/-- A reservation whose machine could not be built is dropped. -/
def abandon (x : Execution) (e : EmbeddedError) : SchedulerCenter × Execution :=
  ({ c with pools := c.pools.dropReservation x.lease },
    ⟨x.call, { x.lease with stage := .released }, .returned (.error e)⟩)

def startExecution (x : Execution) (a : WorkerAnswers) :
    Option (SchedulerCenter × Execution × List WorkerEvent) := do
  if let .error e := a.outcome then return (c, x.return (.error e), [])
  if c.poolClosed x.lease then return (c, x.return (.error ModuleLease.closed), [])
  if x.lease.ready then return (c, { x with stage := .initialized }, [])
  if x.lease.stage ≠ .pending then return (c, x.return (.error ModuleLease.closed), [])
  match ← c.pools.beginExecution x.lease.vm with
  | (pools, .ok permit) => return ({ c with pools }, { x with stage := .allocating permit }, [])
  | (pools, .error e) =>
    let (c, x') := abandon { c with pools } x e
    return (c, x', [.refused x.lease.vm e])

/-- The machine is built; the permit ends before its outcome is looked at. -/
def finishAllocation (x : Execution) (permit : ExecutionPermit) (a : WorkerAnswers) :
    Option (SchedulerCenter × Execution × List WorkerEvent) := do
  let pools ← c.pools.dropPermit permit
  let c := { c with pools }
  match a.outcome with
  | .error e =>
    let (c, x) := c.abandon x e
    return (c, x, [])
  | .ok _ =>
    return (c, ⟨x.call, { x.lease with stage := .resident, uses := 0, finalizable := a.finalizable },
      .allocated⟩, [.built x.lease.vm])

def finishInitialization (x : Execution) (permit : ExecutionPermit) (a : WorkerAnswers) :
    Option (SchedulerCenter × Execution × List WorkerEvent) := do
  let pools ← c.pools.dropPermit permit
  let c := { c with pools }
  let x := { x with lease := { x.lease with finalizable := a.finalizable } }
  match a.outcome with
  | .error e => return (c, x.return (.error e), [])
  | .ok _ =>
    match ← c.pools.markReady x.lease.vm with
    | (pools, .error e) => return ({ c with pools }, x.return (.error e), [])
    | (pools, .ok _) =>
      let c := { c with pools }
      if c.poolClosed x.lease then return (c, x.return (.error ModuleLease.closed), [])
      return (c, ⟨x.call, { x.lease with ready := true }, .initialized⟩, [])

def startInvocation (x : Execution) (a : WorkerAnswers) :
    Option (SchedulerCenter × Execution × List WorkerEvent) := do
  if x.call.request.invocation.isNone then return (c, x.return (.ok x.lifecycleValue), [])
  if let .error e := a.outcome then return (c, x.return (.error e), [])
  if ¬ x.lease.ready ∨ c.poolClosed x.lease ∨ x.lease.stage ≠ .resident ∨
      x.lease.pool.policy.maxUses.any (· ≤ x.lease.uses) then
    return (c, x.return (.error ModuleLease.closed), [])
  if (checkedAdd x.lease.uses 1).isNone then
    return (c, x.return (.error (.internal "module use counter exhausted")), [])
  c.beginExecution x .invoking

def finishInvocation (x : Execution) (permit : ExecutionPermit) (a : WorkerAnswers) :
    Option (SchedulerCenter × Execution × List WorkerEvent) := do
  let pools ← c.pools.dropPermit permit
  let uses := if a.outcome.isOk then x.lease.uses + 1 else x.lease.uses
  return ({ c with pools },
    ⟨x.call, { x.lease with uses, finalizable := a.finalizable }, .returned a.outcome⟩, [])

def stepExecution (x : Execution) (a : WorkerAnswers) :
    Option (SchedulerCenter × Execution × List WorkerEvent) :=
  match x.stage with
  | .starting => c.startExecution x a
  | .allocating permit => c.finishAllocation x permit a
  | .allocated => c.beginExecution x .initializing
  | .initializing permit => c.finishInitialization x permit a
  | .initialized => c.startInvocation x a
  | .invoking permit => c.finishInvocation x permit a
  | .returned _ => some (c, x, [])

/-- A completion of a call that ran. -/
def executed (x : Execution) (result : EmbeddedResult Json) (finalization : Option PendingFinalization)
    (lease : Option ModuleLease) (retirement : Option ℕ) (effects : EffectState) :
    PendingCompletion where
  finalization
  retainedLease := lease
  cleaningStarted := false
  call := if finalization.isSome then x.call
    else { x.call with request := x.call.request.releaseValues }
  result
  retirement
  effects
  dispatched := true
  candidate := none

/-- The machine outlives the call: a healthy one, or one that has to be closed by its own export. -/
def keepsLease (x : Execution) (result : EmbeddedResult Json) : Bool :=
  (x.call.request.sessionId.isSome || x.call.reusableInstance.isSome) &&
    (result.isOk && x.lease.canRetainSession || x.lease.finalizationPlan.isSome)

def concludeExecution (x : Execution) (returned : EmbeddedResult Json) (a : WorkerAnswers) :
    SchedulerCenter × PendingCompletion :=
  let result := match a.sized with
    | .ok _ => returned
    | .error e => .error e
  let single := x.call.request.sessionId.isNone && x.call.reusableInstance.isNone
  match if single then x.lease.finalizationPlan else none with
  | some plan =>
    (c, executed x result (some ⟨x.lease, plan, false, none, false⟩) none none .unknown)
  | none =>
    if keepsLease x result then (c, executed x result none (some x.lease) none .unknown)
    else
      let (pools, lease) := if result.isOk then (c.pools, x.lease) else c.pools.closeLease x.lease
      match pools.finish lease with
      | (pools, .retiring vm) => ({ c with pools }, executed x result none none (some vm) .unknown)
      | (pools, .noInstance) => ({ c with pools }, executed x result none none none .notStarted)

/-! ## Closing exports -/

/-- The closing call before its permit. -/
def startFinalization (completion : PendingCompletion) (a : WorkerAnswers) :
    Option (SchedulerCenter × Worker × List WorkerEvent) := do
  let closing ← completion.finalization
  let finish (result : EmbeddedResult Json) : Worker :=
    .pushing { completion with finalization := some { closing with outcome := some result } } false
  if let .error e := a.outcome then return (c, finish (.error e), [])
  if closing.lease.stage ≠ .resident then return (c, finish (.error ModuleLease.closed), [])
  match ← c.pools.beginExecution closing.lease.vm with
  | (pools, .error e) =>
    return ({ c with pools }, finish (.error e), [.refused closing.lease.vm e])
  | (pools, .ok permit) =>
    let lease := { closing.lease with ready := false }
    return ({ c with pools },
      .finalizing { completion with finalization := some { closing with lease } } (some permit), [])

def finishFinalization (completion : PendingCompletion) (permit : ExecutionPermit)
    (a : WorkerAnswers) : Option (SchedulerCenter × Worker × List WorkerEvent) := do
  let closing ← completion.finalization
  let pools ← c.pools.dropPermit permit
  let lease := { closing.lease with finalizable := false }
  return ({ c with pools },
    .pushing { completion with
      finalization := some { closing with lease, outcome := some a.outcome } } false, [])

/-! ## The completion section -/

/-- The machine of a completion cannot serve another call. -/
def unfit (x : PendingCompletion) : Bool :=
  x.retainedLease.isNone || !x.result.isOk || x.retainedLease.any fun l => !l.canRetainSession

def resultError (x : PendingCompletion) : Option EmbeddedError :=
  match x.result with
  | .ok _ => none
  | .error e => some e

/-- The section in which an executor hands over its completion. -/
def pushCompletion (x : PendingCompletion) (newlyDispatched : Bool) : Option SchedulerCenter := do
  let sessions ← if unfit x then
      c.state.updateSession x.call.request.sessionId fun session =>
        some { session with closing := true, error := session.error.or (resultError x) }
    else some c.state.sessions
  let reusableInstances ← if unfit x then
      c.state.updateInstance x.call.reusableInstance fun r => some { r with closing := true }
    else some c.state.reusableInstances
  return { c with state := { c.state with
    sessions, reusableInstances
    cleaningCount := if newlyDispatched then c.state.cleaningCount + 1 else c.state.cleaningCount
    cleaning := c.state.cleaning ++ [x] } }

end SchedulerCenter

end LuaSkills.Embedded.Scheduler
