import LuaSkills.Embedded.Operation.Owner

/-!
# Runs of an operation

The calls of everyone who can touch one operation: its owner, the dispatchers of its host effects, the
host, and the writer with its storage threads, its other clients and the other users of the journal.
Other clients of the writer never write under the identity of this operation, which is fresh in its
registry; they may reconcile or forget its record.
-/

namespace LuaSkills.Embedded

/-- The key under which a request is stored. -/
def WriteRequest.key (request : WriteRequest) : JournalKey :=
  (request.runtimeId, request.snapshot.operationId)

/-- One call on the operation, or one step of the writer. -/
inductive OperationCall where
  | writer (call : WriterCall)
  | cancel
  | reserveEffect (stage : EffectAdmissionStage) (caller : CapabilityCaller)
    (registrationId name version : String)
  | bindRequest (i : ℕ) (requestId : String)
  | checkpointStart (i : ℕ) (wait : Bool) (faults : DriveFaults)
  | beginEffect (i : ℕ)
  | observe (i : ℕ) (effects : EffectState)
  | pollOutcome (i : ℕ) (faults : DriveFaults)
  | dropAttempt (i : ℕ)
  | advance (phase : OperationPhase) (faults : DriveFaults) (transaction : TransactionFaults)
  | pollAdvance (phase : OperationPhase) (faults : DriveFaults)
  | retryAdvance (faults : DriveFaults)
  | prepareFinalization (export_ : String) (business : EmbeddedResult Json)
  | pollFinalization (faults : DriveFaults)
  | takeFinalizationControl
  | prepareFinalizationOutcome (result : EmbeddedResult Json)
  | prepareCompletion (result : EmbeddedResult Json) (effects : EffectState)
  | pollCompletionCheckpoint (retry : Bool) (faults : DriveFaults)
  | publishCompletion
  | retryCompletion (faults : DriveFaults) (transaction : TransactionFaults)
  | pollCompletion (retry : Bool) (faults : DriveFaults)
  | requestCheckpointRetry
  | resume (faults : DriveFaults)

namespace Operation
variable (O : Operation)

/-- The call does not write under the operation's identity or touch its receipts. -/
def foreign (w : WriterWorld) : WriterCall → Bool
  | .submitRequest request _ => request.key ≠ O.key
  | .cloneReceipt id | .dropReceipt id => w.receipts[id]?.all fun r => r.request.key ≠ O.key
  | .journal (.writeCheckpoint runtimeId _ snapshot _ _) => (runtimeId, snapshot.operationId) ≠ O.key
  | _ => true

/-- `prepare` of the capability registry as far as the ledger is concerned: the caller is validated,
and a closing control exists once the owner has issued it. -/
def reserveEffect (w : OperationWorld) (stage : EffectAdmissionStage) (caller : CapabilityCaller)
    (registrationId name version : String) : EmbeddedResult LedgerState := do
  refuseIf (stage = .finalization ∧ ¬ w.finalization.any (·.controlIssued))
    (EmbeddedError.busy "operation has no prepared finalization")
  caller.validate O.runtimeId
  O.effects.prepare w.ledger stage caller registrationId name version

/-- The unique owner of the effect at position `i` still exists. -/
def attemptAlive (w : OperationWorld) (i : ℕ) : Bool :=
  w.ledger.records[i]?.any (·.phase ≠ .completed)

/-- A ledger call; a refusal leaves the ledger. -/
def setLedger (w : OperationWorld) (x : EmbeddedResult LedgerState) : OperationWorld :=
  match x with
  | .ok ledger => { w with ledger }
  | .error _ => w

/-- The waiting caller observes its receipt again. -/
def resume (w : OperationWorld) (faults : DriveFaults) : OperationWorld :=
  match w.gate with
  | none => w
  | some (.advance phase) =>
    (block true (.advance phase) (O.driveAdvance { w with gate := none } phase false faults)).1
  | some (.start i) => (O.checkpointStart { w with gate := none } i true faults).1

def perform (w : OperationWorld) : OperationCall → OperationWorld
  | .writer call =>
    if O.foreign w.writer call then { w with writer := O.center.perform w.writer call } else w
  | .cancel => cancel w
  | .reserveEffect stage caller registrationId name version =>
    setLedger w (O.reserveEffect w stage caller registrationId name version)
  | .bindRequest i requestId =>
    if attemptAlive w i then setLedger w (O.effects.bindRequest w.ledger i requestId) else w
  | .checkpointStart i wait faults =>
    if attemptAlive w i ∧ w.gate.isNone then (O.checkpointStart w i wait faults).1 else w
  -- dispatchers begin an effect only after its start was acknowledged to them
  | .beginEffect i =>
    if attemptAlive w i ∧ i ∈ w.authorized then setLedger w (EffectLedger.beginEffect w.ledger i)
    else w
  | .observe i effects =>
    if attemptAlive w i then { w with ledger := EffectLedger.observe w.ledger i effects } else w
  | .pollOutcome i faults => if attemptAlive w i then (O.pollOutcome w i faults).1 else w
  | .dropAttempt i => { w with ledger := EffectLedger.dropAttempt w.ledger i }
  | .advance phase faults transaction =>
    if w.gate.isNone then (O.advance w phase faults transaction).1 else w
  | .pollAdvance phase faults => (O.pollAdvance w phase faults).1
  | .retryAdvance faults => (O.retryAdvance w faults).1
  | .prepareFinalization export_ business => (O.prepareFinalization w export_ business).1
  | .pollFinalization faults => (O.pollFinalization w faults).1
  | .takeFinalizationControl => (takeFinalizationControl w).1
  | .prepareFinalizationOutcome result => (O.prepareFinalizationOutcome w result).1
  | .prepareCompletion result effects => (O.prepareCompletion w result effects).1
  | .pollCompletionCheckpoint retry faults => (O.driveCompletionCheckpoint w retry faults).1
  | .publishCompletion => (O.publishCompletion w).1
  | .retryCompletion faults transaction => (O.retryCompletion w faults transaction).1
  | .pollCompletion retry faults => (O.pollCompletion w retry faults).1
  | .requestCheckpointRetry => (O.requestCheckpointRetry w).1
  | .resume faults => O.resume w faults

/-- The world after further calls. -/
def runFrom (w : OperationWorld) (calls : List OperationCall) : OperationWorld :=
  calls.foldl O.perform w

/-- The world after calls on an operation admitted over a journal with an earlier history. -/
def run (earlier : List JournalCall) (calls : List OperationCall) : OperationWorld :=
  O.runFrom (O.new (WriterCenter.new (O.center.journal.run earlier))) calls

end Operation

end LuaSkills.Embedded
