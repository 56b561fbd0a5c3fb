import LuaSkills.Embedded.Journal.Worker.State
import LuaSkills.Embedded.Operation.Effects

/-!
# Checkpoint ownership of an operation

An operation with a history may only proceed past a candidate snapshot that its journal acknowledged.
Candidates of the phase and of host effects share one gated slot, `transition`; the terminal candidate
has its own, `completion`. A retained candidate is immutable: driving it submits it once, observes the
receipt, and submits it again only on an explicit retry after a completed failure.

The blocking callers of the source hold the gate while they wait. Such a call is one step that returns
`false` and keeps the gate (`Blocked`), and the step that resumes it once something has changed.
-/

namespace LuaSkills.Embedded

/-- How an operation persists its checkpoints; `memory` is the absent history. -/
inductive HistoryBackend where
  | memory | direct | queued
deriving DecidableEq

/-- The immutable part of an admitted operation. `contextBytes` is what admission charged for its
module context. -/
structure Operation where
  center : WriterCenter
  backend : HistoryBackend
  runtimeId : String
  id : String
  context : OperationContext
  valid : context.validate runtimeId id = .ok ()
  maxValueBytes : ℕ
  maxEffectRecords : ℕ
  maxEffectBytes : ℕ
  contextBytes : ℕ

inductive CheckpointRetryState where
  | waiting | requested | retrying
deriving DecidableEq

inductive CheckpointEffect where
  | start (effectId : String)
  | outcome (effectId : String)
deriving DecidableEq

/-- State of one checkpoint attempt; a receipt is named by its admission. -/
inductive Attempt where
  | acknowledged
  | new
  | submitted (receipt : ℕ)
  | failed (error : EmbeddedError)
  | unobservable (receipt : ℕ) (error : EmbeddedError)
deriving DecidableEq

def Attempt.isFailed : Attempt → Bool
  | .failed _ => true
  | _ => false

/-- A retained candidate with its attempt; `candidate` numbers the candidates of the operation. -/
structure PendingCheckpoint where
  candidate : ℕ
  effect : Option CheckpointEffect
  failure : Option EmbeddedError
  retry : CheckpointRetryState
  snapshot : OperationSnapshot
  attempt : Attempt
deriving DecidableEq

/-- Closing-budget ownership; the duration of the budget is not modelled. -/
structure FinalizationOwnership where
  controlIssued : Bool
  outcomePrepared : Bool

/-- A caller that waits for its receipt and holds the gate. -/
inductive Blocked where
  | advance (phase : OperationPhase)
  | start (effect : ℕ)

/-- One call of `OperationHistory::submit`: the candidate, what it carries and the predecessor. -/
structure Submission where
  candidate : ℕ
  snapshot : OperationSnapshot
  previous : Option ℕ

/-- The two places that retain a candidate. -/
inductive Slot where
  | transition | completion
deriving DecidableEq

/-- An operation with its owner, its effect attempts and the writer it shares. `authorized` are the
effects whose start was acknowledged to their dispatcher. The logs `published`, `acknowledged`,
`submissions` and `retries` record every store to the public snapshot with the number of revisions
accepted before it, every accepted revision with its snapshot, every submission and every explicit
retry request after a completed failure; `disordered` records an acknowledgement that `accept` refused
as out of order. -/
structure OperationWorld where
  writer : WriterWorld
  snapshot : OperationSnapshot
  cancelled : Bool
  ledger : LedgerState
  revision : Option ℕ
  gate : Option Blocked
  transition : Option PendingCheckpoint
  finalization : Option FinalizationOwnership
  pendingCompletion : Option OperationSnapshot
  completion : Option PendingCheckpoint
  authorized : List ℕ
  candidates : ℕ
  published : List (ℕ × OperationSnapshot)
  acknowledged : List (ℕ × OperationSnapshot)
  submissions : List Submission
  retries : List ℕ
  disordered : Bool

namespace OperationWorld

def slot (w : OperationWorld) : Slot → Option PendingCheckpoint
  | .transition => w.transition
  | .completion => w.completion

def setSlot (w : OperationWorld) (σ : Slot) (c : Option PendingCheckpoint) : OperationWorld :=
  { w with
    transition := if σ = .transition then c else w.transition
    completion := if σ = .completion then c else w.completion }

/-- `PendingCheckpoint::new` in a slot. -/
def retain (w : OperationWorld) (σ : Slot) (effect : Option CheckpointEffect)
    (snapshot : OperationSnapshot) : OperationWorld :=
  { w with candidates := w.candidates + 1 }.setSlot σ
    (some ⟨w.candidates, effect, none, .waiting, snapshot, .new⟩)

/-- A store to the public snapshot. -/
def publish (w : OperationWorld) (snapshot : OperationSnapshot) : OperationWorld :=
  { w with snapshot, published := w.published ++ [(w.acknowledged.length, snapshot)] }

/-- Cancellation and host evidence projected onto a snapshot; unfinished host work refines an
execution phase. -/
def project (w : OperationWorld) (s : OperationSnapshot) : OperationSnapshot :=
  { s with
    cancellationRequested := w.cancelled
    hostEffects := w.ledger.records
    effects := mergeEffects s.effects w.ledger.records
    phase := if (s.phase = .initializing ∨ s.phase = .running) ∧ EffectLedger.unfinished w.ledger
      then .waitingForHost else s.phase }

end OperationWorld

/-- What may go wrong while a checkpoint is driven: a poisoned queue at submission, a poisoned
receipt at observation. -/
structure DriveFaults where
  queuePoisoned : Bool
  receiptPoisoned : Bool

def acknowledged : JournalWriteSnapshot → EmbeddedResult ℕ
  | ⟨.completed, some revision, none⟩ => .ok revision
  | ⟨.completed, none, some error⟩ => .error error
  | _ => .error (.internal "journal acknowledgement is inconsistent")

namespace Operation
variable (O : Operation)

def poisoned : EmbeddedError := .internal "operation checkpoint lock is poisoned"

def outOfOrder : EmbeddedError := .internal "operation checkpoint acknowledgement is out of order"

/-- The journal's key of the operation. -/
def key : JournalKey := (O.runtimeId, O.id)

/-- The ledger of the operation. -/
def effects : EffectLedger where
  caller := O.context.caller
  runtimeId := O.runtimeId
  operationId := O.id
  maxRecords := O.maxEffectRecords
  maxBytes := O.maxEffectBytes
  effectSize := O.center.journal.serde.effectSize

/-- The snapshot that admission publishes. -/
def initial : OperationSnapshot := ⟨none, O.context, [], O.id, .queued, false, .notStarted, none, none⟩

/-- The operation as it is admitted. -/
def new (writer : WriterWorld) : OperationWorld where
  writer := writer
  snapshot := O.initial
  cancelled := false
  ledger := EffectLedger.new O.contextBytes
  revision := none
  gate := none
  transition := none
  finalization := none
  pendingCompletion := none
  completion := none
  authorized := []
  candidates := 0
  published := []
  acknowledged := []
  submissions := []
  retries := []
  disordered := false

/-! ## Driving a candidate -/

/-- The request `submit_checkpoint` queues for a candidate. -/
def request (w : OperationWorld) (snapshot : OperationSnapshot) : WriteRequest :=
  ⟨true, O.runtimeId, w.revision, snapshot⟩

/-- A retry is permitted by the argument or by a request on the candidate; it renews only a failed
attempt. -/
def permitRetry (w : OperationWorld) (σ : Slot) (c : PendingCheckpoint) (retry : Bool) :
    OperationWorld :=
  let permitted := retry || c.retry = .requested
  let c' := if permitted then
      { c with retry := .retrying, attempt := if c.attempt.isFailed then .new else c.attempt }
    else c
  { w with
    retries := if retry ∧ c.attempt.isFailed then w.retries ++ [c.candidate] else w.retries
  }.setSlot σ (some c')

/-- Submits a candidate that has not been submitted since it was retained or renewed. -/
def submitNew (w : OperationWorld) (σ : Slot) (c : PendingCheckpoint) (queuePoisoned : Bool) :
    OperationWorld :=
  if c.attempt = .new then
    let (writer, receipt) := O.center.submitRequest w.writer (O.request w c.snapshot) queuePoisoned
    let attempt := match receipt with
      | .ok id => Attempt.submitted id
      | .error e => Attempt.failed e
    { w with
      writer
      submissions := w.submissions ++ [Submission.mk c.candidate c.snapshot w.revision]
    }.setSlot σ (some { c with attempt })
  else w

/-- The attempt's receipt is dropped with the attempt. -/
def replaceAttempt (w : OperationWorld) (σ : Slot) (c : PendingCheckpoint) (receipt : ℕ)
    (attempt : Attempt) : OperationWorld :=
  { w with writer := O.center.perform w.writer (.dropReceipt receipt) }.setSlot σ
    (some { c with attempt })

/-- `OperationHistory::accept` and the acknowledgement of the candidate. -/
def acknowledge (w : OperationWorld) (σ : Slot) (c : PendingCheckpoint) (receipt next : ℕ) :
    OperationWorld :=
  O.replaceAttempt { w with
    revision := some next
    acknowledged := w.acknowledged ++ [(next, c.snapshot)] } σ c receipt .acknowledged

def observeAttempt (w : OperationWorld) (σ : Slot) (c : PendingCheckpoint)
    (receiptPoisoned : Bool) : OperationWorld × EmbeddedResult Bool :=
  match c.attempt with
  | .acknowledged => (w, .ok true)
  | .failed e | .unobservable _ e => (w, .error e)
  | .new => (w, .error poisoned)
  | .submitted id =>
    match w.writer.receipts[id]? with
    | none => (w, .error poisoned)
    | some receipt =>
      if receiptPoisoned then
        (w.setSlot σ (some { c with attempt := .unobservable id WriterCenter.poisoned }),
          .error WriterCenter.poisoned)
      else if receipt.snapshot.phase ≠ .completed then (w, .ok false)
      else
        match acknowledged receipt.snapshot with
        | .ok next =>
          if w.revision ≠ receipt.request.expectedRevision then
            ({ w with disordered := true }, .error outOfOrder)
          else (O.acknowledge w σ c id next, .ok true)
        | .error e => (O.replaceAttempt w σ c id (.failed e), .error e)

/-- Keeps the failure of the last attempt observable. -/
def recordResult (w : OperationWorld) (σ : Slot) (c : PendingCheckpoint) :
    EmbeddedResult Bool → OperationWorld
  | .ok true => w.setSlot σ (some { c with failure := none })
  | .ok false => w
  | .error e => w.setSlot σ (some { c with failure := some e, retry := .waiting })

/-- The candidate that a slot is known to hold. -/
def held (w : OperationWorld) (σ : Slot) (c : PendingCheckpoint) : PendingCheckpoint :=
  (w.slot σ).getD c

def drive (w : OperationWorld) (σ : Slot) (c : PendingCheckpoint) (retry : Bool)
    (faults : DriveFaults) : OperationWorld × EmbeddedResult Bool :=
  let w := permitRetry w σ c retry
  let w := O.submitNew w σ (held w σ c) faults.queuePoisoned
  let (w, result) := O.observeAttempt w σ (held w σ c) faults.receiptPoisoned
  (recordResult w σ (held w σ c) result, result)

end Operation

end LuaSkills.Embedded
