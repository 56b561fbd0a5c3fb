import Mathlib.Data.Multiset.AddSub
import LuaSkills.Embedded.Journal.Store

/-!
# The journal worker

One storage thread executes admitted checkpoint writes in order. An attempt is a shared
`ReceiptState`: the queue, the active slot, the locals of the thread and every receipt a client
holds own it, and its destructor returns the reserved quota when the last of them is gone. Attempts
are named by their position in the order of admission.

A thread is its program point. Between two points it holds no lock, so that every interleaving with
clients and with the supervisor is a sequence of `WriterCall`s. The faults of a call are its
parameters: at each point inside `run` the thread may unwind or find a lock poisoned, and both end in
`fail`, which the supervising closure runs once the locals are gone.
-/

namespace LuaSkills.Embedded

structure OperationJournalWorkerConfig where
  maxPendingWrites : ℕ
  maxPendingBytes : ℕ

def OperationJournalWorkerConfig.validate (config : OperationJournalWorkerConfig) :
    EmbeddedResult Unit :=
  refuseIf (config.maxPendingWrites = 0 ∨ config.maxPendingBytes = 0)
    (.invalid "journal worker limits must be positive")

inductive JournalWritePhase where
  | queued | writing | completed
deriving DecidableEq

structure JournalWriteSnapshot where
  phase : JournalWritePhase
  revision : Option ℕ
  error : Option EmbeddedError
deriving DecidableEq

/-- Work passed to the storage thread. -/
structure WriteRequest where
  reconcile : Bool
  runtimeId : String
  expectedRevision : Option ℕ
  snapshot : OperationSnapshot

structure ReceiptState where
  request : WriteRequest
  bytes : ℕ
  snapshot : JournalWriteSnapshot

/-- Publishes `result` unless an outcome is already retained. -/
def ReceiptState.complete (receipt : ReceiptState) (result : EmbeddedResult ℕ) : ReceiptState :=
  if receipt.snapshot.phase = .completed then receipt else
  { receipt with snapshot := match result with
    | .ok revision => { receipt.snapshot with phase := .completed, revision := some revision }
    | .error error => { receipt.snapshot with phase := .completed, error := some error } }

/-- Queue metadata, with attempts named by their admission. -/
structure WriterState where
  closeRequested : Bool
  queued : List ℕ
  active : Option ℕ
  pendingWrites : ℕ
  pendingBytes : ℕ
  failure : Option EmbeddedError

namespace WriterState

def admissionClosed (s : WriterState) : Bool := s.closeRequested || s.failure.isSome

/-- The arithmetic of `ReceiptState::drop`; `none` is an underflow. -/
def release (s : WriterState) (bytes : ℕ) : Option WriterState := do
  let pendingWrites ← checkedSub s.pendingWrites 1
  let pendingBytes ← checkedSub s.pendingBytes bytes
  return { s with pendingWrites, pendingBytes }

end WriterState

/-! ## The thread -/

/-- Where a thread goes on once its locals are dropped: the next turn of `run`, the supervisor's
`fail`, or the rest of the attempts that `fail` took. -/
inductive Resume where
  | next
  | fail (error : EmbeddedError)
  | settle (error : EmbeddedError) (hands : List ℕ)
deriving DecidableEq

inductive ThreadPoint where
  /-- Before the metadata lock, or waiting on it for work. -/
  | fetch
  /-- Holds the attempt it also put into the active slot. -/
  | claimed (receipt : ℕ)
  /-- Has published the writing phase. -/
  | writing (receipt : ℕ)
  /-- `write_checkpoint` has returned. -/
  | written (receipt : ℕ) (result : EmbeddedResult ℕ)
  /-- The outcome is published, the active slot still taken. -/
  | published (receipt : ℕ)
  /-- Drops its locals one by one. -/
  | dropping (held : List ℕ) (resume : Resume)
  /-- Before the lock of `fail`. -/
  | failing (error : EmbeddedError)
  /-- Completes the attempts `fail` took. -/
  | settling (error : EmbeddedError) (hands : List ℕ)
  | exited (panicked : Bool)
deriving DecidableEq

def Resume.hands : Resume → List ℕ
  | .settle _ hands => hands
  | _ => []

/-- The attempts a thread owns through its locals. -/
def ThreadPoint.held : ThreadPoint → List ℕ
  | .claimed receipt | .writing receipt | .written receipt _ | .published receipt => [receipt]
  | .dropping held resume => held ++ resume.hands
  | .settling _ hands => hands
  | .fetch | .failing _ | .exited _ => []

def ThreadPoint.isExited : ThreadPoint → Bool
  | .exited _ => true
  | _ => false

/-- What may happen to the thread at a program point inside `run`. -/
inductive ThreadFault where
  | none | poisoned | panicked

/-- `ThreadOwner`: the join handle, and the memory of a failed join. -/
structure ThreadOwner where
  handle : Option ℕ
  unprovenExit : Bool

/-- One execution of `write_checkpoint` on behalf of an attempt. -/
structure Execution where
  thread : ℕ
  attempt : ℕ
  result : EmbeddedResult ℕ
deriving DecidableEq

/-- The writer with everyone who can touch it. `receipts` keeps every admitted attempt; `clients`
are the receipts that clients hold. The logs `started`, `executed` and `completed` record, in order,
which thread took which attempt, each call of `write_checkpoint` and each publication of an outcome;
`underflow` records a destructor that subtracted below zero. -/
structure WriterWorld where
  journal : JournalState
  state : WriterState
  worker : ThreadOwner
  threads : List ThreadPoint
  clients : Multiset ℕ
  receipts : List ReceiptState
  started : List (ℕ × ℕ)
  executed : List Execution
  completed : List (ℕ × EmbeddedResult ℕ)
  underflow : Bool

namespace WriterWorld
variable (w : WriterWorld)

def owners : Multiset ℕ :=
  w.clients + (w.state.queued : Multiset ℕ) + (w.state.active.toList : Multiset ℕ) +
    (w.threads.flatMap ThreadPoint.held : Multiset ℕ)

/-- The bytes admission charged for an attempt. -/
def bytes (id : ℕ) : ℕ := (w.receipts[id]?.map ReceiptState.bytes).getD 0

def setThread (i : ℕ) (point : ThreadPoint) : WriterWorld :=
  { w with threads := w.threads.set i point }

def setPhase (id : ℕ) (phase : JournalWritePhase) : WriterWorld :=
  { w with receipts := w.receipts.modify id fun r => { r with snapshot.phase := phase } }

/-- `ReceiptState::complete`, logged when it publishes. -/
def complete (id : ℕ) (result : EmbeddedResult ℕ) : WriterWorld :=
  { w with
    receipts := w.receipts.modify id (·.complete result)
    completed := if (w.receipts[id]?.map (·.snapshot.phase)) = some .completed then w.completed
      else w.completed ++ [(id, result)] }

/-- The destructor, once the owner that went away has been taken out of the world. -/
def releaseLast (id : ℕ) : Option WriterWorld :=
  if id ∈ w.owners then some w else
  (w.state.release (w.bytes id)).map fun state => { w with state }

/-- An owner outside the storage thread goes away; an underflow unwinds its caller. -/
def dropOwner (id : ℕ) : WriterWorld := (w.releaseLast id).getD { w with underflow := true }

end WriterWorld

/-! ## Operations -/

/-- The shared parts of the writer: the journal, validated limits and the size serde counts. -/
structure WriterCenter where
  journal : OperationJournal
  config : OperationJournalWorkerConfig
  valid : config.validate = .ok ()
  requestSize : WriteRequest → ℕ

namespace WriterCenter

def poisoned : EmbeddedError := .internal "journal worker ownership lock is poisoned"

def panicked : EmbeddedError :=
  .internal "journal worker panicked; reconcile the active write before retrying"

def unproven : EmbeddedError :=
  .internal "journal worker terminated outside its supervisor; recovery is unavailable"

variable (C : WriterCenter)

/-- A writer whose first thread has been started on an opened journal. -/
def new (journal : JournalState) : WriterWorld where
  journal := journal
  state := ⟨false, [], none, 0, 0, none⟩
  worker := ⟨some 0, false⟩
  threads := [.fetch]
  clients := 0
  receipts := []
  started := []
  executed := []
  completed := []
  underflow := false

/-- The checks of `submit_request` before the metadata lock; returns the charge. -/
def prepareRequest (request : WriteRequest) : EmbeddedResult ℕ := do
  C.journal.validateKey (request.runtimeId, request.snapshot.operationId)
  refuseIf (request.expectedRevision.any fun revision => revision = 0 ∨ revision ≥ maxRevision)
    (EmbeddedError.invalid "journal write revision is invalid or exhausted")
  jsonSize (C.requestSize request) C.config.maxPendingBytes

/-- The checks of `submit_request` under the metadata lock. -/
def admissible (s : WriterState) (bytes : ℕ) : EmbeddedResult Unit := do
  refuseIf s.admissionClosed (EmbeddedError.mk .closed "journal worker is closing")
  refuseIf (s.pendingWrites ≥ C.config.maxPendingWrites ∨
      bytes > C.config.maxPendingBytes - s.pendingBytes)
    ⟨.capacityExceeded, "journal worker receipt capacity reached"⟩

/-- Returns the receipt of the admitted attempt; `lockPoisoned` is the state of the metadata lock. -/
def submitRequest (w : WriterWorld) (request : WriteRequest) (lockPoisoned : Bool) :
    WriterWorld × EmbeddedResult ℕ :=
  let checked : EmbeddedResult ℕ := do
    let bytes ← C.prepareRequest request
    refuseIf lockPoisoned poisoned
    C.admissible w.state bytes
    return bytes
  match checked with
  | .error e => (w, .error e)
  | .ok bytes =>
    let id := w.receipts.length
    ({ w with
      receipts := w.receipts ++ [⟨request, bytes, ⟨.queued, none, none⟩⟩]
      clients := id ::ₘ w.clients
      state := { w.state with
        pendingWrites := w.state.pendingWrites + 1
        pendingBytes := w.state.pendingBytes + bytes
        queued := w.state.queued ++ [id] } }, .ok id)

def requestClose (w : WriterWorld) : WriterWorld :=
  { w with state.closeRequested := true }

/-- The locked part of `fail`: retains the first failure and moves every owned attempt out. -/
def failTake (s : WriterState) (error : EmbeddedError) : WriterState × List ℕ :=
  ({ s with failure := some (s.failure.getD error), active := none, queued := [] },
    s.active.toList ++ s.queued)

def fail (w : WriterWorld) (error : EmbeddedError) : WriterWorld :=
  let (state, hands) := failTake w.state error
  hands.foldl (fun w id => (w.complete id (.error error)).dropOwner id) { w with state }

/-- `write_checkpoint` of an attempt's request, with the revision it acknowledges. -/
def write (journal : JournalState) (request : WriteRequest) (faults : TransactionFaults) :
    JournalState × EmbeddedResult ℕ :=
  let (journal, record) := C.journal.writeCheckpoint journal request.runtimeId
    request.expectedRevision request.snapshot request.reconcile faults
  (journal, record.map JournalOperation.revision)

def execute (w : WriterWorld) (i id : ℕ) (request : WriteRequest) (faults : TransactionFaults) :
    WriterWorld :=
  let x := C.write w.journal request faults
  { w with
    journal := x.1
    executed := w.executed ++ [Execution.mk i id x.2] }.setThread i (.written id x.2)

/-- An underflow in a destructor unwinds the thread: inside `run` into the supervisor, inside `fail`
out of the thread. -/
def unwound (rest : List ℕ) : Resume → ThreadPoint
  | .settle _ _ => .exited true
  | _ => .dropping rest (.fail panicked)

/-- Drops the first of the thread's locals. -/
def dropLocal (w : WriterWorld) (i id : ℕ) (rest : List ℕ) (resume : Resume) : WriterWorld :=
  match (w.setThread i (.dropping rest resume)).releaseLast id with
  | some w => w
  | none => { w with underflow := true }.setThread i (unwound rest resume)

def advance (w : WriterWorld) (i : ℕ) (faults : TransactionFaults) :
    ThreadPoint → ThreadFault → WriterWorld
  | .fetch, .panicked => w.setThread i (.dropping [] (.fail panicked))
  | .fetch, .poisoned => w.setThread i (.dropping [] (.fail poisoned))
  | .fetch, .none =>
    match w.state.queued with
    | id :: queued =>
      { w with
        state := { w.state with queued, active := some id }
        started := w.started ++ [(i, id)] }.setThread i (.claimed id)
    | [] => if w.state.admissionClosed then w.setThread i (.exited false) else w
  | .claimed id, .panicked => w.setThread i (.dropping [id] (.fail panicked))
  | .claimed id, .poisoned => w.setThread i (.dropping [id] (.fail poisoned))
  | .claimed id, .none => (w.setPhase id .writing).setThread i (.writing id)
  | .writing id, .panicked => w.setThread i (.dropping [id] (.fail panicked))
  | .writing id, _ =>
    match w.receipts[id]? with
    | some receipt => C.execute w i id receipt.request faults
    | none => w
  | .written id _, .panicked => w.setThread i (.dropping [id] (.fail panicked))
  | .written id result, _ => (w.complete id result).setThread i (.published id)
  | .published id, .panicked => w.setThread i (.dropping [id] (.fail panicked))
  | .published id, .poisoned => w.setThread i (.dropping [id] (.fail poisoned))
  | .published id, .none =>
    { w with state.active := none }.setThread i (.dropping (w.state.active.toList ++ [id]) .next)
  | .dropping (id :: rest) resume, _ => dropLocal w i id rest resume
  | .dropping [] .next, _ => w.setThread i .fetch
  | .dropping [] (.fail error), _ => w.setThread i (.failing error)
  | .dropping [] (.settle error hands), _ => w.setThread i (.settling error hands)
  | .failing error, _ =>
    let (state, hands) := failTake w.state error
    { w with state }.setThread i (.settling error hands)
  | .settling error (id :: hands), _ =>
    (w.complete id (.error error)).setThread i (.dropping [id] (.settle error hands))
  | .settling _ [], _ => w.setThread i (.exited false)
  | .exited _, _ => w

def step (w : WriterWorld) (i : ℕ) (fault : ThreadFault) (faults : TransactionFaults) :
    WriterWorld :=
  match w.threads[i]? with
  | some point => C.advance w i faults point fault
  | none => w

/-! ## Joining and recovery -/

def handlePoint (w : WriterWorld) : Option ThreadPoint := w.worker.handle.bind (w.threads[·]?)

/-- `ThreadOwner::exited`. -/
def exited (w : WriterWorld) : Bool := (handlePoint w).all ThreadPoint.isExited

/-- Joins only a finished thread and remembers one that unwound out of its supervisor. -/
def joinFinished (w : WriterWorld) : WriterWorld × EmbeddedResult Bool :=
  if ¬ exited w then (w, .ok false) else
  let panicked := match handlePoint w with
    | some (.exited panicked) => panicked
    | _ => false
  let unprovenExit := w.worker.unprovenExit || panicked
  ({ w with worker := ⟨none, unprovenExit⟩ }, if unprovenExit then .error unproven else .ok true)

/-- True once closed with every receipt released and the thread gone. -/
def pollClosed (w : WriterWorld) (workerPoisoned statePoisoned : Bool) :
    WriterWorld × EmbeddedResult Bool :=
  if workerPoisoned then (w, .error poisoned) else
  match joinFinished w with
  | (w, .ok false) => (w, .ok false)
  | (w, joined) =>
    let w := match joined with
      | .error error => fail w error
      | .ok _ => w
    (w, if statePoisoned then .error poisoned else
      .ok (w.state.admissionClosed && w.state.pendingWrites = 0 && w.state.active.isNone &&
        w.state.queued.isEmpty))

/-- `spawn`: one more supervised thread, whose handle replaces the joined one. -/
def spawn (w : WriterWorld) : WriterWorld :=
  { w with
    threads := w.threads ++ [.fetch]
    worker.handle := some w.threads.length
    state.failure := none }

/-- What `recover_worker` checks of the joined writer before it spawns. -/
def recoverable (s : WriterState) : EmbeddedResult Unit :=
  refuseIf (s.active.isSome ∨ s.queued ≠ []) (.internal
    "journal worker recovery requires supervised completion of every admitted attempt")

/-- `lockPoisoned` says whether one of the two locks is poisoned, `spawned` whether the operating
system starts a thread. -/
def recoverWorker (w : WriterWorld) (lockPoisoned spawned : Bool) :
    WriterWorld × EmbeddedResult Bool :=
  if lockPoisoned then (w, .error poisoned) else
  if w.state.closeRequested then
    (w, .error (EmbeddedError.mk .closed "journal worker was explicitly closed")) else
  if w.state.failure.isNone then
    (w, if exited w then
      .error (.internal "journal worker exited without retained supervised failure") else .ok false)
  else
  match joinFinished w with
  | (w, .error e) => (w, .error e)
  | (w, .ok false) => (w, .error (.busy "journal worker has not actually exited"))
  | (w, .ok true) =>
    match recoverable w.state with
    | .error e => (w, .error e)
    | .ok () =>
      if spawned then (spawn w, .ok true)
      else (w, .error (.internal "journal worker creation failed"))

/-! ## Runs -/

end WriterCenter

/-- One step of a client, of the host, of another user of the journal or of a storage thread. -/
inductive WriterCall where
  | submitRequest (request : WriteRequest) (lockPoisoned : Bool)
  | cloneReceipt (id : ℕ)
  | dropReceipt (id : ℕ)
  | requestClose
  | pollClosed (workerPoisoned statePoisoned : Bool)
  | recoverWorker (lockPoisoned spawned : Bool)
  | journal (call : JournalCall)
  | thread (i : ℕ) (fault : ThreadFault) (faults : TransactionFaults)

namespace WriterCenter
variable (C : WriterCenter)

def perform (w : WriterWorld) : WriterCall → WriterWorld
  | .submitRequest request lockPoisoned => (C.submitRequest w request lockPoisoned).1
  | .cloneReceipt id => if id ∈ w.clients then { w with clients := id ::ₘ w.clients } else w
  | .dropReceipt id =>
    if id ∈ w.clients then { w with clients := w.clients.erase id }.dropOwner id else w
  | .requestClose => requestClose w
  | .pollClosed workerPoisoned statePoisoned => (pollClosed w workerPoisoned statePoisoned).1
  | .recoverWorker lockPoisoned spawned => (recoverWorker w lockPoisoned spawned).1
  | .journal call => { w with journal := (C.journal.perform w.journal call).1 }
  | .thread i fault faults => C.step w i fault faults

/-- The world after further calls. -/
def runFrom (w : WriterWorld) (calls : List WriterCall) : WriterWorld := calls.foldl C.perform w

/-- The world after calls on a new writer. -/
def run (journal : JournalState) (calls : List WriterCall) : WriterWorld :=
  C.runFrom (new journal) calls

end WriterCenter

end LuaSkills.Embedded
