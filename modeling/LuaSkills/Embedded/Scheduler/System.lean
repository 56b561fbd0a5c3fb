import LuaSkills.Embedded.Scheduler.Workers

/-!
# The formal scheduler

The scheduler with its fixed executors, its supervisor and the retirement worker. A step is one section
under the scheduler's lock, or one step of an executor or of the retirement worker outside of it; a run
is any sequence of steps. `none` means that a section unwound: an `expect` failed or a counter went
below zero.

`log` is the history of the system, which no step reads.
-/

namespace LuaSkills.Embedded.Scheduler

/-- The record that owns a machine between calls. -/
inductive Owner where
  | session (id : String)
  | instance (id : String)
deriving DecidableEq

inductive Event where
  | enqueued (call : ScheduledCall)
  /-- `select` took a call, of the plugin `plugin`; it was rejected, or it is `executed`. -/
  | selected (plugin : Option String) (call : ScheduledCall) (executed : Bool)
  /-- A queued call was removed by the supervisor. -/
  | expired (call : ScheduledCall)
  | published (id : String)
  | allocated (owner : Owner) (vm : ℕ)
  /-- A closing operation was reserved, spent or given back. -/
  | reserved (owner : Owner) (id : String)
  | consumed (owner : Owner) (id : String)
  | released (owner : Owner) (id : String)
  | machine (e : WorkerEvent)

structure SchedulerWorld where
  center : SchedulerCenter
  workers : List Worker
  /-- The completions that the supervisor took out of the state. -/
  detached : List PendingCompletion
  /-- The leases that the supervisor is handing to retirement. -/
  handovers : List (Owner × ModuleLease)
  log : List Event

inductive SchedulerAction where
  | registerPlugin (pluginId : String) (config : EmbeddedPluginConfig) (a : Answers)
  | registerCapacity (pluginId : String) (config : EmbeddedCapacityConfig) (a : Answers)
  | registerPool (pluginId : String) (policy : PluginPoolConfig) (finalizer : Option ModuleFinalizer)
    (inputs : List String) (capacityId : Option String) (a : Answers)
  | reviseCapacity (id expectedRevision : String) (config : EmbeddedCapacityConfig) (a : Answers)
  | submit (request : EmbeddedCall) (a : Answers)
  | prewarmInstance (poolId : String) (context : Json) (a : Answers)
  | submitSession (sessionId exportName : String) (arguments context : Json) (a : Answers)
  | openSession (poolId : String) (a : Answers)
  | closeSession (sessionId : String)
  | closePool (id : String)
  | closeCapacity (id : String)
  | closePlugin (id : String)
  | closePhysical (id : String)
  | requestClose
  | forgetOperation (id : String)
  | forgetPool (id : String)
  | forgetSession (id : String)
  | forgetCapacity (id : String)
  | forgetPlugin (id : String)
  | observeShared (failed : Bool)
  | retryCheckpoint (id : String)
  /-- An idle executor looks for work. -/
  | takeWork (i : ℕ) (a : DispatchAnswers)
  /-- A busy executor goes on. -/
  | work (i : ℕ) (a : WorkerAnswers)
  | rejectExpired (pluginId : String) (index : ℕ) (check : EmbeddedResult Unit)
  | expire (poolId : String) (elapsed : String → Bool)
  | maintainSession (id : String)
  | maintainInstance (id : String)
  | scheduleSession (id : String) (answer : EmbeddedResult Unit)
  | scheduleInstance (id : String) (answer : EmbeddedResult Unit)
  | retireHandover (i : ℕ)
  | settleSession (id : String)
  | pruneInstance (id : String)
  | detach
  | reattach
  | complete (i : ℕ) (a : SchedulerCenter.CompletionAnswers)
  | retirement (step : EmbeddedPoolManager.RetirementStep)

namespace SchedulerCenter

/-- The closing operation that a record still reserves. -/
def reservation (c : SchedulerCenter) : Owner → Option OperationReservation
  | .session id => (c.state.sessions.lookup id).bind (·.finalizationReservation)
  | .instance id => (c.state.reusableInstances.lookup id).bind (·.finalizationReservation)

def reservedEvents (c : SchedulerCenter) (owner : Owner) : List Event :=
  ((c.reservation owner).map fun r => Event.reserved owner r.id).toList

/-- A reservation that is there in `c` and not in `c'`. -/
def releasedEvents (c c' : SchedulerCenter) (owner : Owner) : List Event :=
  if (c'.reservation owner).isNone then
    ((c.reservation owner).map fun r => Event.released owner r.id).toList
  else []

def openedEvents (c : SchedulerCenter) (sessionId id : String) (bytes : ℕ) : List Event :=
  match c.state.sessions.lookup sessionId with
  | none => []
  | some session =>
    (session.lease.map fun l => Event.allocated (.session sessionId) l.vm).toList ++
      c.reservedEvents (.session sessionId) ++
      [.enqueued ⟨none, id, .openSession session.poolId sessionId, bytes⟩]

def allocatedEvents (c c' : SchedulerCenter) (call : ScheduledCall) (lease : ModuleLease) :
    List Event :=
  match call.reusableInstance with
  | none => []
  | some id =>
    if id ∈ c.state.reusableInstances then []
    else .allocated (.instance id) lease.vm :: c'.reservedEvents (.instance id)

end SchedulerCenter

namespace SchedulerWorld

def new (id : String) (config : ParentConfig) : SchedulerWorld :=
  ⟨⟨id, .new config, ⟨0, ∅⟩, .empty⟩, List.replicate config.maxRunningCalls .idle, [], [], []⟩

variable (w : SchedulerWorld)

/-- A section that returned, with what it adds to the history if it succeeded. -/
def settle {α : Type} (r : Option (SchedulerCenter × EmbeddedResult α))
    (events : SchedulerCenter → α → List Event) : Option SchedulerWorld := do
  let (center, result) ← r
  match result with
  | .error _ => return { w with center }
  | .ok a => return { w with center, log := w.log ++ events center a }

def settleSilently {α : Type} (r : Option (SchedulerCenter × EmbeddedResult α)) :
    Option SchedulerWorld :=
  w.settle r fun _ _ => []

def setWorker (i : ℕ) (worker : Worker) : SchedulerWorld :=
  { w with workers := w.workers.set i worker }

def selectWork (i : ℕ) (a : DispatchAnswers) : Option SchedulerWorld := do
  match ← w.center.select a with
  -- An infrastructure error stops the runtime.
  | (c, .error _) => return { w with center := c.requestClose }
  | (c, .ok none) => return { w with center := c }
  | (c, .ok (some (.rejected call error))) =>
    let plugin := w.center.state.owner call.request.poolId
    let w := { w with center := c, log := w.log ++ [Event.selected plugin call false] }
    return w.setWorker i (.pushing (SchedulerState.unexecuted call error none) true)
  | (c, .ok (some (.ready call lease))) =>
    let plugin := w.center.state.owner call.request.poolId
    let events := w.center.allocatedEvents c call lease ++ [Event.selected plugin call true]
    let w := { w with center := c, log := w.log ++ events }
    return w.setWorker i (.executing ⟨call, lease, .starting⟩)

/-- An idle executor prefers a closing export that is ready. -/
def takeWork (i : ℕ) (a : DispatchAnswers) : Option SchedulerWorld :=
  let s := w.center.state
  match w.workers[i]? with
  | some .idle =>
    if s.persistenceFailures.size = 0 ∧ ¬ s.sharedCheckpointFailed then
      match s.finalizing with
      | x :: rest =>
        let state := { s with finalizing := rest }
        let w := { w with center := { w.center with state } }
        some (w.setWorker i (.finalizing x none))
      | [] => if s.closing then some w else w.selectWork i a
    else some w
  | _ => some w

/-- The world after a step of the executor `i` outside the lock. -/
def worked (i : ℕ) (c : SchedulerCenter) (worker : Worker) (events : List WorkerEvent) :
    SchedulerWorld :=
  setWorker { w with center := c, log := w.log ++ events.map .machine } i worker

def work (i : ℕ) (a : WorkerAnswers) : Option SchedulerWorld :=
  match w.workers[i]? with
  | some (.executing x) =>
    match x.stage with
    | .returned result =>
      let (c, completion) := w.center.concludeExecution x result a
      some (w.worked i c (.pushing completion true) [])
    | _ => do
      let (c, x, events) ← w.center.stepExecution x a
      return w.worked i c (.executing x) events
  | some (.finalizing completion none) => do
    let (c, worker, events) ← w.center.startFinalization completion a
    return w.worked i c worker events
  | some (.finalizing completion (some permit)) => do
    let (c, worker, events) ← w.center.finishFinalization completion permit a
    return w.worked i c worker events
  | some (.pushing completion newlyDispatched) => do
    let c ← w.center.pushCompletion completion newlyDispatched
    return w.worked i c .idle []
  | some .idle | none => some w

/-- A closing operation that was scheduled spends the reservation of its owner. -/
def scheduled (owner : Owner) (r : Option (SchedulerCenter × EmbeddedResult Bool)) :
    Option SchedulerWorld := do
  match ← r with
  | (c, .error _) => return { w with center := c.requestClose }
  | (c, .ok false) => return { w with center := c }
  | (c, .ok true) =>
    let consumed := (w.center.reservation owner).map fun r => Event.consumed owner r.id
    return { w with center := c, log := w.log ++ consumed.toList }

/-- Schedules the closing operation of a session that waits for one. -/
def scheduleSession (id : String) (answer : EmbeddedResult Unit) : Option SchedulerWorld :=
  if (w.center.state.sessions.lookup id).any SchedulerCenter.finalizesSession then
    w.scheduled (.session id) (w.center.scheduleSession id answer)
  else some w

def scheduleInstance (id : String) (answer : EmbeddedResult Unit) : Option SchedulerWorld :=
  if (w.center.state.reusableInstances.lookup id).any SchedulerCenter.finalizesInstance then
    w.scheduled (.instance id) (w.center.scheduleInstance id answer)
  else some w

/-- A visit of the supervisor that may take a lease. -/
def maintain (owner : Owner) (r : SchedulerCenter × Option ModuleLease) : SchedulerWorld :=
  { w with
    center := r.1
    handovers := w.handovers ++ (r.2.map fun l => (owner, l)).toList }

def retireHandover (i : ℕ) : Option SchedulerWorld :=
  match w.handovers[i]? with
  | none => some w
  | some (owner, lease) => do
    let center ← match owner with
      | .session id => w.center.retireSession id lease
      | .instance id => w.center.retireInstance id lease
    return { w with center, handovers := w.handovers.eraseIdx i }

def settleSession (id : String) : Option SchedulerWorld := do
  let center ← w.center.settleSession id
  return { w with center, log := w.log ++ w.center.releasedEvents center (.session id) }

def pruneInstance (id : String) : Option SchedulerWorld := do
  let center ← w.center.pruneInstance id
  return { w with center, log := w.log ++ w.center.releasedEvents center (.instance id) }

def publishedEvents (c : SchedulerCenter) (x : PendingCompletion) : List Event :=
  (match x.call.reusableInstance with
    | none => []
    | some id => w.center.releasedEvents c (.instance id)) ++ [.published x.call.id]

def complete (i : ℕ) (a : SchedulerCenter.CompletionAnswers) : Option SchedulerWorld :=
  match w.detached[i]? with
  | none => some w
  | some x => do
    match ← w.center.complete x a with
    | (center, .pending x) => return { w with center, detached := w.detached.set i x }
    | (c, .ready x) =>
      let state := { c.state with finalizing := c.state.finalizing ++ [x] }
      return { w with center := { c with state }, detached := w.detached.eraseIdx i }
    | (center, .published) =>
      return { w with
        center
        detached := w.detached.eraseIdx i
        log := w.log ++ w.publishedEvents center x }

def rejectExpired (pluginId : String) (index : ℕ) (check : EmbeddedResult Unit) :
    Option SchedulerWorld := do
  let state ← w.center.state.rejectExpired pluginId index check
  let removed := if state.queued = w.center.state.queued then none
    else (w.center.state.queues.lookup pluginId).bind (·[index]?)
  return { w with
    center := { w.center with state }
    log := w.log ++ (removed.map Event.expired).toList }

/-- One step of the system. -/
def step : SchedulerAction → Option SchedulerWorld
  | .registerPlugin id config a => w.settleSilently (some (w.center.registerPlugin id config a))
  | .registerCapacity id config a => w.settleSilently (w.center.registerCapacity id config a)
  | .registerPool id policy finalizer inputs capacityId a =>
    w.settleSilently (w.center.registerPool id policy finalizer inputs capacityId a)
  | .reviseCapacity id token config a => w.settleSilently (w.center.reviseCapacity id token config a)
  | .submit request a =>
    w.settle (w.center.submit request a) fun _ id => [.enqueued ⟨none, id, .invoke request, a.bytes⟩]
  | .prewarmInstance poolId context a =>
    w.settle (w.center.prewarmInstance poolId context a) fun _ id =>
      [.enqueued ⟨none, id, .prewarm poolId context, a.bytes⟩]
  | .submitSession sessionId exportName arguments context a =>
    w.settle (w.center.submitSession sessionId exportName arguments context a) fun c id =>
      match c.state.sessions.lookup sessionId with
      | none => []
      | some session =>
        let call : EmbeddedCall := ⟨session.poolId, exportName, arguments, context⟩
        [.enqueued ⟨none, id, .invokeSession sessionId call, a.bytes⟩]
  | .openSession poolId a =>
    w.settle (w.center.openSession poolId a) fun c r => c.openedEvents r.1 r.2 a.bytes
  | .closeSession id => w.settleSilently (some (w.center.closeSession id))
  | .closePool id => w.settleSilently (some (w.center.closePool id))
  | .closeCapacity id => w.settleSilently (some (w.center.closeCapacity id))
  | .closePlugin id => w.settleSilently (some (w.center.closePlugin id))
  | .closePhysical id => some { w with center := w.center.closePhysical id }
  | .requestClose => some { w with center := w.center.requestClose }
  | .forgetOperation id => w.settleSilently (w.center.forgetOperation id)
  | .forgetPool id => w.settleSilently (some (w.center.forgetPool id))
  | .forgetSession id => w.settleSilently (some (w.center.forgetSession id))
  | .forgetCapacity id => w.settleSilently (w.center.forgetCapacity id)
  | .forgetPlugin id => w.settleSilently (some (w.center.forgetPlugin id))
  | .observeShared failed => some { w with center := w.center.observeShared failed }
  | .retryCheckpoint id => some { w with center := w.center.retryCheckpoint id }
  | .takeWork i a => w.takeWork i a
  | .work i a => w.work i a
  | .rejectExpired pluginId index check => w.rejectExpired pluginId index check
  | .expire poolId elapsed => do
    if poolId ∉ w.center.state.pools then return w
    let state ← w.center.state.expire elapsed poolId
    return { w with center := { w.center with state } }
  | .maintainSession id => some (w.maintain (.session id) (w.center.maintainSession id))
  | .maintainInstance id => some (w.maintain (.instance id) (w.center.maintainInstance id))
  | .scheduleSession id answer => w.scheduleSession id answer
  | .scheduleInstance id answer => w.scheduleInstance id answer
  | .retireHandover i => w.retireHandover i
  | .settleSession id => w.settleSession id
  | .pruneInstance id => w.pruneInstance id
  | .detach =>
    let state := { w.center.state with cleaning := [] }
    some { w with
      center := { w.center with state }
      detached := w.detached ++ w.center.state.cleaning }
  | .reattach =>
    let state := { w.center.state with cleaning := w.center.state.cleaning ++ w.detached }
    some { w with center := { w.center with state }, detached := [] }
  | .complete i a => w.complete i a
  | .retirement step =>
    some { w with center := { w.center with pools := w.center.pools.retire step } }

/-- The world after a sequence of steps, unless one of them unwound. -/
def run (id : String) (config : ParentConfig) (actions : List SchedulerAction) :
    Option SchedulerWorld :=
  actions.foldlM step (new id config)

end SchedulerWorld

end LuaSkills.Embedded.Scheduler
