import Mathlib.Data.Finset.Card
import LuaSkills.Data.Fallible
import LuaSkills.Data.SortedMap

/-!
# The managed session event center

One center queues events of registered sessions and wakes a host callback when its queue becomes
nonempty. A wake-up is scheduled under the center lock, handed over to the single slot of the retry
center after that lock is released, and invoked by the one retry worker with no lock held. Replacing
the callback waits until every invocation of an older generation is gone. A step below is one section
between two points where another thread can run; `WakeEvent`s record what happened to wake-ups.
-/

namespace LuaSkills.SessionEvents

/-! ## Events and sessions -/

inductive ManagedSessionEventKind where
  | stdoutReadable | stderrReadable | exited | failed
deriving DecidableEq, Repr

structure ManagedSessionEventToken where
  systemLeaseId : String
  sid : String
  generation : ℕ
  managedSessionId : ℕ
deriving DecidableEq, Repr

structure ManagedSessionEventSlot where
  token : ManagedSessionEventToken
  kind : ManagedSessionEventKind
deriving DecidableEq, Repr

/-- A public event: the fields of its session token, its kind and its sequence. -/
structure ManagedSessionEvent where
  systemLeaseId : String
  sid : String
  generation : ℕ
  managedSessionId : ℕ
  kind : ManagedSessionEventKind
  sequence : ℕ
deriving DecidableEq, Repr

def eventSlot (event : ManagedSessionEvent) : ManagedSessionEventSlot where
  token :=
    { systemLeaseId := event.systemLeaseId
      sid := event.sid
      generation := event.generation
      managedSessionId := event.managedSessionId }
  kind := event.kind

def eventMatchesToken (event : ManagedSessionEvent) (token : ManagedSessionEventToken) : Bool :=
  event.systemLeaseId = token.systemLeaseId ∧ event.sid = token.sid ∧
    event.generation = token.generation ∧ event.managedSessionId = token.managedSessionId

structure ManagedSessionEventBatch where
  events : List ManagedSessionEvent
  remaining : ℕ
  timedOut : Bool

/-! ## Callbacks -/

/-- A host callback, named by a number. Only the fallible form can report a failure. -/
inductive WakeCallback where
  | infallible (callback : ℕ)
  | fallible (callback : ℕ)
deriving DecidableEq, Repr

structure CallbackRegistration where
  generation : ℕ
  callback : WakeCallback
  lastNotifiedEpoch : Option ℕ
deriving DecidableEq, Repr

structure CallbackInvocation where
  generation : ℕ
  epoch : ℕ
  callback : WakeCallback
  failureReported : Bool
  retryAttempt : ℕ
deriving DecidableEq, Repr

structure RetryItem where
  invocation : CallbackInvocation
  retryDelay : ℕ
deriving DecidableEq, Repr

def managedSessionWakeRetryInitialDelay : ℕ := 10

def managedSessionWakeRetryMaxDelay : ℕ := 1000

def managedSessionWakeRetryDelay (attempt : ℕ) : ℕ :=
  min (managedSessionWakeRetryInitialDelay * 2 ^ min (attempt - 1) 16) managedSessionWakeRetryMaxDelay

/-! ## The state behind the center lock -/

def managedSessionEventSlotsPerSession : ℕ := 4

def maxManagedSessionEventWaitTimeoutMs : ℕ := 2 ^ 32 - 2

structure Center where
  maxSessions : ℕ
  capacity : ℕ
  registeredSessions : Finset ManagedSessionEventToken
  pendingSlots : Finset ManagedSessionEventSlot
  events : List ManagedSessionEvent
  nextSequence : ℕ
  nonemptyEpoch : Option ℕ
  closed : Bool
  callback : Option CallbackRegistration
  nextCallbackGeneration : ℕ
  inflightCallbacks : SortedMap ℕ ℕ

namespace Center

def new (maxSessions : ℕ) : Except String Center := do
  refuseIf (maxSessions = 0) "managed session event max_sessions must be greater than 0"
  let capacity ← okOr
    (if maxSessions * managedSessionEventSlotsPerSession < wordBound then
      some (maxSessions * managedSessionEventSlotsPerSession) else none)
    "managed session event capacity overflow"
  return {
    maxSessions := maxSessions
    capacity := capacity
    registeredSessions := ∅
    pendingSlots := ∅
    events := []
    nextSequence := 0
    nonemptyEpoch := none
    closed := false
    callback := none
    nextCallbackGeneration := 0
    inflightCallbacks := ∅ }

def registerSession (c : Center) (token : ManagedSessionEventToken) : Except String Center := do
  refuseIf (c.closed = true) "managed session event center is closed"
  refuseIf (token ∈ c.registeredSessions) "managed session event token is already registered"
  refuseIf (c.maxSessions ≤ c.registeredSessions.card)
    ("managed session event session limit exceeded; max_sessions=" ++ c.maxSessions.repr)
  return { c with registeredSessions := insert token c.registeredSessions }

/-- Queue and epoch after events were removed. -/
def withEvents (c : Center) (events : List ManagedSessionEvent)
    (pendingSlots : Finset ManagedSessionEventSlot) : Center :=
  { c with
    events := events
    pendingSlots := pendingSlots
    nonemptyEpoch := if events.isEmpty then none else c.nonemptyEpoch }

def unregisterSession (c : Center) (token : ManagedSessionEventToken) : Center × Bool :=
  if token ∈ c.registeredSessions then
    (withEvents { c with registeredSessions := c.registeredSessions.erase token }
      (c.events.filter fun event => !eventMatchesToken event token)
      (c.pendingSlots.filter fun slot => slot.token ≠ token), true)
  else (c, false)

/-- Selects an invocation for the current nonempty epoch and charges its generation. -/
def scheduleCallback (c : Center) (expectedGeneration : Option ℕ) :
    Center × Option CallbackInvocation :=
  match c.nonemptyEpoch, c.callback with
  | some epoch, some registration =>
    if (expectedGeneration.any fun expected => expected != registration.generation) = true ∨
        registration.lastNotifiedEpoch = some epoch ∨ c.inflightCallbacks.isEmpty = false then
      (c, none)
    else
      ({ c with
          callback := some { registration with lastNotifiedEpoch := some epoch }
          inflightCallbacks := c.inflightCallbacks.insert registration.generation
            ((c.inflightCallbacks.lookup registration.generation).getD 0 + 1) },
        some {
          generation := registration.generation
          epoch := epoch
          callback := registration.callback
          failureReported := false
          retryAttempt := 0 })
  | _, _ => (c, none)

/-- The event appended by a publication that neither coalesces nor is refused. -/
def appendEvent (c : Center) (token : ManagedSessionEventToken) (kind : ManagedSessionEventKind)
    (sequence : ℕ) : Center :=
  { c with
    nextSequence := sequence
    pendingSlots := insert { token := token, kind := kind } c.pendingSlots
    events := c.events ++ [{
      systemLeaseId := token.systemLeaseId
      sid := token.sid
      generation := token.generation
      managedSessionId := token.managedSessionId
      kind := kind
      sequence := sequence }]
    nonemptyEpoch := if c.events.isEmpty then some sequence else c.nonemptyEpoch }

/-- The section of `publish` under the center lock; the invocation is handed over later. -/
def publish (c : Center) (token : ManagedSessionEventToken) (kind : ManagedSessionEventKind) :
    Except String (Center × Bool × Option CallbackInvocation) := do
  refuseIf (c.closed = true) "managed session event center is closed"
  refuseIf (token ∉ c.registeredSessions) "managed session event token is not registered"
  if { token := token, kind := kind } ∈ c.pendingSlots then
    return (c, false, none)
  refuseIf (c.capacity ≤ c.pendingSlots.card)
    "managed session event capacity invariant was violated"
  let sequence ← okOr (checkedAdd c.nextSequence 1) "managed session event sequence exhausted"
  let scheduled := (c.appendEvent token kind sequence).scheduleCallback none
  return (scheduled.1, true, scheduled.2)

def drainEvents (c : Center) (maxEvents : ℕ) (timedOut : Bool) :
    Center × ManagedSessionEventBatch :=
  let drained := c.events.take maxEvents
  let kept := c.events.drop maxEvents
  (withEvents c kept
      (c.pendingSlots.filter fun slot => slot ∉ drained.map eventSlot),
    { events := drained, remaining := kept.length, timedOut := timedOut })

def poll (c : Center) (maxEvents : ℕ) : Except String (Center × ManagedSessionEventBatch) := do
  refuseIf (maxEvents = 0) "managed session event max_events must be greater than 0"
  refuseIf (c.closed = true ∧ c.events = []) "managed session event center is closed"
  return c.drainEvents maxEvents false

/-- One round of `wait` under the lock: `none` waits for the next notification. The deadline has
passed when `expired` is set. -/
def waitRound (c : Center) (maxEvents timeoutMs : ℕ) (expired : Bool) :
    Except String (Option (Center × ManagedSessionEventBatch)) := do
  refuseIf (maxEvents = 0) "managed session event max_events must be greater than 0"
  if c.events ≠ [] then
    return some (c.drainEvents maxEvents false)
  refuseIf (c.closed = true) "managed session event center is closed"
  if timeoutMs = 0 then
    return some (c.drainEvents maxEvents true)
  refuseIf (maxManagedSessionEventWaitTimeoutMs < timeoutMs)
    ("managed session event timeout_ms is too large; maximum is " ++
      maxManagedSessionEventWaitTimeoutMs.repr)
  if expired then
    return some (c.drainEvents maxEvents true)
  return none

/-- Whether an invocation of a generation up to the barrier is in flight. -/
def hasInflightCallbackAtOrBefore (c : Center) (barrier : ℕ) : Bool :=
  c.inflightCallbacks.keys.any fun generation => generation ≤ barrier

/-- Retires the installed callback and installs the new one, before any wait. Returns the generation
given to the new callback. -/
def replaceCallback (c : Center) (callback : Option WakeCallback) :
    Except String (Center × Option ℕ) := do
  refuseIf (c.closed = true ∧ callback.isSome = true) "managed session event center is closed"
  match callback with
  | none => return ({ c with callback := none }, none)
  | some callback =>
    let generation ← okOr (checkedAdd c.nextCallbackGeneration 1)
      "managed session event callback generation exhausted"
    return ({ c with
        nextCallbackGeneration := generation
        callback := some {
          generation := generation
          callback := callback
          lastNotifiedEpoch := none } },
      some generation)

def retireInflight (c : Center) (generation : ℕ) : Center :=
  { c with
    inflightCallbacks := match c.inflightCallbacks.lookup generation with
      | some count =>
        if 1 < count then c.inflightCallbacks.insert generation (count - 1)
        else c.inflightCallbacks.erase generation
      | none => c.inflightCallbacks }

def finishCallbackInvocation (c : Center) (generation : ℕ) : Center × Option CallbackInvocation :=
  (c.retireInflight generation).scheduleCallback (some generation)

/-- The check of `retry_callback_invocation`. -/
def isActive (c : Center) (invocation : CallbackInvocation) : Bool :=
  match c.callback with
  | some registration =>
    registration.generation = invocation.generation ∧ c.nonemptyEpoch = some invocation.epoch
  | none => false

end Center

/-! ## The whole system -/

/-- A `set_wake_callback`, clear or `close` waiting for older generations; only the first installs a
generation. -/
structure Replacement where
  barrier : ℕ
  installed : Option ℕ
deriving DecidableEq, Repr

/-- How a callback came back. A panic is contained and ends the wake-up as a normal return does. -/
inductive CallbackOutcome where
  | returned | panicked | failed
deriving DecidableEq, Repr

inductive WorkerPhase where
  | idle
  | taken (item : RetryItem)
  | active (invocation : CallbackInvocation)
  | invoking (invocation : CallbackInvocation)
  | finishing (generation : ℕ)
  | enqueueing (item : RetryItem)

inductive WakeEvent where
  | scheduled (generation epoch : ℕ)
  | invoked (generation epoch : ℕ)
  | cameBack (generation epoch : ℕ) (outcome : CallbackOutcome)
  | replaced (replacement : Replacement)
deriving DecidableEq, Repr

/-- The center, the slot of the retry center, the threads with an invocation on its way to that slot,
the retry worker and the threads waiting in a replacement. The log has the newest event last. -/
structure World where
  center : Center
  pending : Option RetryItem
  handovers : List RetryItem
  worker : WorkerPhase
  replacements : List Replacement
  slotViolated : Bool
  log : List WakeEvent

namespace World

/-- Hands an invocation scheduled under the lock to its thread. -/
def handOver (w : World) (scheduled : Center × Option CallbackInvocation) : World :=
  match scheduled.2 with
  | none => { w with center := scheduled.1 }
  | some invocation =>
    { w with
      center := scheduled.1
      handovers := w.handovers ++ [{ invocation := invocation, retryDelay := 0 }]
      log := w.log ++ [.scheduled invocation.generation invocation.epoch] }

/-- `enqueue` of the retry center; a second item in the slot fails its assertion. -/
def enqueue (w : World) (item : RetryItem) : World :=
  match w.pending with
  | none => { w with pending := some item }
  | some _ => { w with slotViolated := true }

def endReplacement (w : World) (replacement : Replacement) : World :=
  let logged := { w with log := w.log ++ [.replaced replacement] }
  match replacement.installed with
  | none => logged
  | some generation => logged.handOver (w.center.scheduleCallback (some generation))

/-- The wait of a replacement: it goes on with the lock held when nothing older is in flight. -/
def awaitRetired (w : World) (replacement : Replacement) : World :=
  if w.center.hasInflightCallbackAtOrBefore replacement.barrier then
    { w with replacements := w.replacements ++ [replacement] }
  else w.endReplacement replacement

end World

/-- The steps of the threads. `onCallback` says that the thread is the one inside a callback of this
center. -/
inductive Act where
  | register (token : ManagedSessionEventToken)
  | unregister (token : ManagedSessionEventToken)
  | publish (token : ManagedSessionEventToken) (kind : ManagedSessionEventKind)
  | poll (maxEvents : ℕ)
  | waitRound (maxEvents timeoutMs : ℕ) (expired : Bool)
  | handOver (index : ℕ)
  | setWakeCallback (onCallback : Bool) (callback : Option WakeCallback)
  | close (onCallback : Bool)
  | replacementWakes (index : ℕ)
  | workerTakes
  | workerChecks
  | workerInvokes
  | callbackReturns (outcome : CallbackOutcome)
  | workerFinishes
  | workerEnqueues

namespace World

/-- The thread-local guard of a call made on the worker while it runs the callback. -/
def callbackIsActive (w : World) : Bool :=
  match w.worker with
  | .invoking _ => true
  | _ => false

/-- What the worker does once the callback came back. -/
def afterCallback (invocation : CallbackInvocation) : CallbackOutcome → WorkerPhase
  | .returned | .panicked => .finishing invocation.generation
  | .failed =>
    let attempt := min (invocation.retryAttempt + 1) (2 ^ 32 - 1)
    .enqueueing {
      invocation := { invocation with retryAttempt := attempt, failureReported := true }
      retryDelay := managedSessionWakeRetryDelay attempt }

/-- One step. A refused call leaves the world as it is; `none` means that no thread can take the
step. -/
def step (w : World) : Act → Option World
  | .register token =>
    match w.center.registerSession token with
    | .ok center => some { w with center := center }
    | .error _ => some w
  | .unregister token => some { w with center := (w.center.unregisterSession token).1 }
  | .publish token kind =>
    match w.center.publish token kind with
    | .ok (center, _, invocation) => some (w.handOver (center, invocation))
    | .error _ => some w
  | .poll maxEvents =>
    match w.center.poll maxEvents with
    | .ok (center, _) => some { w with center := center }
    | .error _ => some w
  | .waitRound maxEvents timeoutMs expired =>
    match w.center.waitRound maxEvents timeoutMs expired with
    | .ok (some (center, _)) => some { w with center := center }
    | _ => some w
  | .handOver index =>
    match w.handovers[index]? with
    | some item => some ({ w with handovers := w.handovers.eraseIdx index }.enqueue item)
    | none => none
  | .setWakeCallback onCallback callback =>
    if onCallback then
      if w.callbackIsActive then some w else none
    else
      match w.center.replaceCallback callback with
      | .ok (center, installed) =>
        some ({ w with center := center }.awaitRetired {
          barrier := w.center.nextCallbackGeneration
          installed := installed })
      | .error _ => some w
  | .close onCallback =>
    if onCallback then
      if w.callbackIsActive then some w else none
    else
      some ({ w with center := { w.center with closed := true, callback := none } }.awaitRetired {
        barrier := w.center.nextCallbackGeneration
        installed := none })
  | .replacementWakes index =>
    match w.replacements[index]? with
    | some replacement =>
      some ({ w with replacements := w.replacements.eraseIdx index }.awaitRetired replacement)
    | none => none
  | .workerTakes =>
    match w.worker, w.pending with
    | .idle, some item => some { w with pending := none, worker := .taken item }
    | _, _ => none
  | .workerChecks =>
    match w.worker with
    | .taken item =>
      some { w with
        worker := if w.center.isActive item.invocation then .active item.invocation
          else .finishing item.invocation.generation }
    | _ => none
  | .workerInvokes =>
    match w.worker with
    | .active invocation =>
      some { w with
        worker := .invoking invocation
        log := w.log ++ [.invoked invocation.generation invocation.epoch] }
    | _ => none
  | .callbackReturns outcome =>
    match w.worker with
    | .invoking invocation =>
      match invocation.callback, outcome with
      | .infallible _, .failed => none
      | _, _ =>
        some { w with
          worker := afterCallback invocation outcome
          log := w.log ++ [.cameBack invocation.generation invocation.epoch outcome] }
    | _ => none
  | .workerFinishes =>
    match w.worker with
    | .finishing generation =>
      let finished := w.center.finishCallbackInvocation generation
      match finished.2 with
      | none => some { w with center := finished.1, worker := .idle }
      | some invocation =>
        some { w with
          center := finished.1
          worker := .enqueueing { invocation := invocation, retryDelay := 0 }
          log := w.log ++ [.scheduled invocation.generation invocation.epoch] }
    | _ => none
  | .workerEnqueues =>
    match w.worker with
    | .enqueueing item => some ({ w with worker := .idle }.enqueue item)
    | _ => none

end World

end LuaSkills.SessionEvents
