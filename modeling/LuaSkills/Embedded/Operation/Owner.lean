import LuaSkills.Embedded.Operation.Checkpoint

/-!
# The owner of an operation and its host effects

The calls that capture candidates and consume their acknowledgements. The owner advances phases,
prepares and records finalization and completes the operation; the attempts of host effects persist
their start and their outcome through the same gate; the host may cancel and may request a retry of
the retained candidate.
-/

namespace LuaSkills.Embedded

open EmbeddedError

/-- Bounds a stage result by the operation's value budget. -/
def OperationOutcome.bounded (serde : Serde) (result : EmbeddedResult Json) (maximum : ℕ) :
    OperationOutcome :=
  let size := match result with
    | .ok value => serde.valueSize value
    | .error error => serde.errorSize error
  if size > maximum then
    .failed ⟨.capacityExceeded, "operation result exceeds the configured byte limit"⟩
  else
    match result with
    | .ok value => .succeeded value
    | .error error => .failed error

/-- Equality of stage results, their values compared as parsed values. -/
def sameResult : EmbeddedResult Json → EmbeddedResult Json → Bool
  | .ok v, .ok v' => v.Same v'
  | .error e, .error e' => e = e'
  | _, _ => false

namespace Operation
variable (O : Operation)

def serde : Serde := O.center.journal.serde

/-! ## Candidates -/

/-- The phase candidate of `drive_advance`. -/
def advanceCandidate (w : OperationWorld) (phase : OperationPhase) :
    EmbeddedResult OperationSnapshot := do
  let snapshot ← w.snapshot.advanceSnapshot phase
  return { w.project snapshot with phase }

/-- The public snapshot with live cancellation and the given host evidence. -/
def evidence (w : OperationWorld) (records : List HostEffectRecord) : OperationSnapshot :=
  { w.snapshot with
    cancellationRequested := w.cancelled
    hostEffects := records
    effects := mergeEffects w.snapshot.effects records }

/-- Permission to execute an effect, recorded before the live ledger changes. -/
def startCandidate (w : OperationWorld) (effectId : String) : EmbeddedResult OperationSnapshot := do
  refuseIf w.snapshot.phase.isTerminal (EmbeddedError.mk .closed "operation is terminal")
  let i ← okOr (w.ledger.records.findIdx? (·.effectId = effectId)) poisoned
  let record ← okOr w.ledger.records[i]? poisoned
  refuseIf (record.phase ≠ .prepared) (busy "host effect was already dispatched")
  return evidence w
    (w.ledger.records.set i { record with phase := .running, effects := .unknown })

def outcomeCandidate (w : OperationWorld) (effectId : String) : EmbeddedResult OperationSnapshot := do
  refuseIf w.snapshot.phase.isTerminal (EmbeddedError.mk .closed "operation is terminal")
  let record ← okOr (w.ledger.records.find? (·.effectId = effectId)) poisoned
  refuseIf (record.phase ≠ .running)
    (busy "host outcome requires retained handler admission")
  return evidence w w.ledger.records

/-- Closing intent over the frozen business evidence. -/
def finalizationCandidate (w : OperationWorld) (snapshot : OperationSnapshot) (export_ : String)
    (business : OperationOutcome) (count : ℕ) : OperationSnapshot :=
  { w.project snapshot with finalization := some ⟨export_, business, count, none⟩ }

def closingCandidate (w : OperationWorld) (records : List HostEffectRecord)
    (outcome : OperationOutcome) : OperationSnapshot :=
  { evidence w records with
    finalization := w.snapshot.finalization.map fun f => { f with outcome := some outcome } }

/-- The result that a terminal snapshot shows: the original business result, or the failure of the
closing stage. -/
def terminalResult (w : OperationWorld) (result : EmbeddedResult Json) :
    EmbeddedResult (EmbeddedResult Json) :=
  match w.snapshot.finalization with
  | none => .ok result
  | some finalization => do
    refuseIf (¬ w.finalization.any (·.outcomePrepared))
      (busy "closing outcome is not acknowledged")
    refuseIf (¬ sameResult finalization.business.result result)
      (invalid "completion cannot replace the original business outcome")
    match finalization.business, finalization.outcome with
    | _, none => .error (.busy "closing outcome is missing")
    | .failed error, some _ => return .error error
    | .succeeded _, some (.failed error) => return .error error
    | .succeeded _, some (.succeeded _) => return result

def terminalSnapshot (s : OperationSnapshot) : EmbeddedResult Json → OperationSnapshot
  | .ok value => { s with phase := .succeeded, value := some value }
  | .error error =>
    { s with phase := if error.code = .cancelled then .cancelled else .failed, error := some error }

/-- The terminal candidate over sealed evidence. -/
def terminalCandidate (w : OperationWorld) (records : List HostEffectRecord)
    (result : EmbeddedResult Json) (effects : EffectState) : OperationSnapshot :=
  terminalSnapshot { w.snapshot with
    hostEffects := records
    effects := mergeEffects effects records
    cancellationRequested := w.cancelled } result

/-! ## The gate -/

/-- A blocking caller keeps the gate while its receipt is pending. -/
def block (wait : Bool) (blocked : Blocked) (x : OperationWorld × EmbeddedResult Bool) :
    OperationWorld × EmbeddedResult Bool :=
  ({ x.1 with gate := if wait ∧ x.2 = .ok false then some blocked else none }, x.2)

/-- The acknowledged candidate leaves its slot. -/
def consume (w : OperationWorld) : OperationWorld := { w with transition := none }

/-- Drives the retained transition; an acknowledged candidate is handed to `next`. -/
def driveTransition (w : OperationWorld) (c : PendingCheckpoint) (retry : Bool)
    (faults : DriveFaults) (next : OperationWorld → OperationWorld × EmbeddedResult Bool) :
    OperationWorld × EmbeddedResult Bool :=
  match O.drive w .transition c retry faults with
  | (w, .ok true) => next w
  | (w, result) => (w, result)

/-- Retains a captured candidate in the transition slot and drives it for the first time. -/
def driveCaptured (w : OperationWorld) (effect : Option CheckpointEffect)
    (captured : EmbeddedResult OperationSnapshot) (faults : DriveFaults)
    (next : OperationWorld → OperationWorld × EmbeddedResult Bool) (retry : Bool) :
    OperationWorld × EmbeddedResult Bool :=
  match captured with
  | .error e => (w, .error e)
  | .ok snapshot =>
    let w' := w.retain .transition effect snapshot
    O.driveTransition w' ⟨w.candidates, effect, none, .waiting, snapshot, .new⟩ retry faults next

/-! ## Host effects -/

/-- `checkpoint_effect_start` under the gate. An earlier intent is drained, a candidate of another
owner is left alone. -/
def effectStart (w : OperationWorld) (effectId : String) (wait : Bool) (faults : DriveFaults) :
    OperationWorld × EmbeddedResult Bool :=
  let capture := fun w => O.driveCaptured w (some (.start effectId)) (startCandidate w effectId)
    faults (fun w => (consume w, .ok true)) false
  match w.transition with
  | none => capture w
  | some c =>
    match c.effect with
    | some (.start id) =>
      O.driveTransition w c false faults fun w =>
        if id = effectId then (consume w, .ok true) else capture (consume w)
    | _ => (w, if wait then .error (.busy "operation phase checkpoint is pending") else .ok false)

/-- The effect's start was acknowledged to its dispatcher. -/
def authorize (i : ℕ) (x : OperationWorld × EmbeddedResult Bool) :
    OperationWorld × EmbeddedResult Bool :=
  (if x.2 = .ok true then { x.1 with authorized := x.1.authorized ++ [i] } else x.1, x.2)

/-- `EffectAttempt::checkpoint_start` of the effect at position `i`, with the gate free. -/
def checkpointStart (w : OperationWorld) (i : ℕ) (wait : Bool) (faults : DriveFaults) :
    OperationWorld × EmbeddedResult Bool :=
  match O.backend with
  | .memory => authorize i (w, .ok true)
  | .direct => (w, .error ⟨.unsupported, "persistent host dispatch requires a journal worker"⟩)
  | .queued =>
    authorize i (block wait (.start i) (O.effectStart w (O.effects.effectId i) wait faults))

/-- `poll_effect_outcome` under the gate; storage failures are observed as pending. -/
def effectOutcome (w : OperationWorld) (effectId : String) (faults : DriveFaults) :
    OperationWorld × EmbeddedResult Bool :=
  let pending := fun x : OperationWorld × EmbeddedResult Bool => (x.1, match x.2 with
    | .error _ => Except.ok false
    | result => result)
  let capture := fun w =>
    match outcomeCandidate w effectId with
    | .error e => (w, .error e)
    | .ok snapshot => pending (O.driveCaptured w (some (.outcome effectId)) (.ok snapshot) faults
        (fun w => (consume w, .ok true)) false)
  match w.transition with
  | none => capture w
  | some c =>
    match c.effect with
    | some (.outcome id) =>
      if id = effectId then
        pending (O.driveTransition w c false faults fun w => (consume w, .ok true))
      else (w, .ok false)
    | some (.start _) =>
      match O.drive w .transition c false faults with
      | (w, .ok true) => capture (consume w)
      | (w, _) => (w, .ok false)
    | none => (w, .ok false)

def pollOutcome (w : OperationWorld) (i : ℕ) (faults : DriveFaults) :
    OperationWorld × EmbeddedResult Bool :=
  match O.backend with
  | .memory => (w, .ok true)
  | .direct => (w, .error ⟨.unsupported, "persistent host completion requires a journal worker"⟩)
  | .queued =>
    if w.gate.isSome then (w, .ok false) else O.effectOutcome w (O.effects.effectId i) faults

/-! ## Phases -/

/-- What `drive_advance` does with an acknowledged candidate: a phase is published, an intent leaves
its slot, an outcome stays for the handler that owns it. -/
def finishAdvance (w : OperationWorld) : OperationWorld × EmbeddedResult Bool :=
  match w.transition with
  | none => (w, .ok true)
  | some c =>
    match c.effect with
    | some (.outcome _) => (w, .ok true)
    | some (.start _) => (consume w, .ok true)
    | none => (consume (w.publish c.snapshot), .ok true)

def driveAdvance (w : OperationWorld) (phase : OperationPhase) (retry : Bool)
    (faults : DriveFaults) : OperationWorld × EmbeddedResult Bool :=
  match w.transition with
  | some c =>
    if c.snapshot.phase ≠ phase then
      (w, .error (.busy "observe or retry the original phase checkpoint before another transition"))
    else O.driveTransition w c retry faults finishAdvance
  | none => O.driveCaptured w none (advanceCandidate w phase) faults finishAdvance retry

/-- One synchronous write of the direct backend; an acknowledged one advances the revision. -/
def checkpointDirect (w : OperationWorld) (snapshot : OperationSnapshot)
    (faults : TransactionFaults) : OperationWorld × EmbeddedResult Unit :=
  let (journal, record) := O.center.journal.writeCheckpoint w.writer.journal O.runtimeId w.revision
    snapshot true faults
  let w := { w with writer.journal := journal }
  match record with
  | .error e => (w, .error e)
  | .ok record =>
    ({ w with
      revision := some record.revision
      acknowledged := w.acknowledged ++ [(record.revision, snapshot)] }, .ok ())

def advanceDirect (w : OperationWorld) (phase : OperationPhase) (faults : TransactionFaults) :
    OperationWorld × EmbeddedResult Bool :=
  match advanceCandidate w phase with
  | .error e => (w, .error e)
  | .ok snapshot =>
    match O.checkpointDirect w snapshot faults with
    | (w, .error e) => (w, .error e)
    | (w, .ok ()) => (w.publish snapshot, .ok true)

/-- `advance` without a history. -/
def advanceMemory (w : OperationWorld) (phase : OperationPhase) :
    OperationWorld × EmbeddedResult Bool :=
  match w.snapshot.advanceSnapshot phase with
  | .error e => (w, .error e)
  | .ok snapshot => (w.publish snapshot, .ok true)

def retainedCompletion : EmbeddedError := .busy "operation has a retained terminal checkpoint"

/-- `OperationOwner::advance` with the gate free; over a queue it waits and retries. -/
def advance (w : OperationWorld) (phase : OperationPhase) (faults : DriveFaults)
    (transaction : TransactionFaults) : OperationWorld × EmbeddedResult Bool :=
  if w.pendingCompletion.isSome then (w, .error retainedCompletion) else
  match O.backend with
  | .memory => advanceMemory w phase
  | .direct => O.advanceDirect w phase transaction
  | .queued => block true (.advance phase) (O.driveAdvance w phase true faults)

def pollAdvance (w : OperationWorld) (phase : OperationPhase) (faults : DriveFaults) :
    OperationWorld × EmbeddedResult Bool :=
  if w.pendingCompletion.isSome then (w, .error retainedCompletion) else
  match O.backend with
  | .direct => (w, .error (.invalid "nonblocking checkpoints require a journal worker"))
  | .memory => if w.gate.isSome then (w, .ok false) else advanceMemory w phase
  | .queued => if w.gate.isSome then (w, .ok false) else O.driveAdvance w phase false faults

/-- Retries the retained candidate, whatever owner it belongs to. -/
def retryAdvance (w : OperationWorld) (faults : DriveFaults) :
    OperationWorld × EmbeddedResult Bool :=
  if w.gate.isSome then (w, .ok false) else
  match w.transition with
  | none => (w, .error (.busy "operation has no retained phase checkpoint"))
  | some c => O.driveAdvance w c.snapshot.phase true faults

/-! ## Finalization -/

def checkpointOwned : EmbeddedError := .busy "operation checkpoint is owned"

/-- Publishes memory evidence or retains the queued candidate. -/
def retainFinalization (w : OperationWorld) (snapshot : OperationSnapshot) : OperationWorld :=
  match O.backend with
  | .memory => w.publish snapshot
  | _ => w.retain .transition none snapshot

/-- The checks of `prepare_finalization`, with what they return: the advanced snapshot, the ledger
after business admission and the number of business effects. -/
def checkFinalization (w : OperationWorld) (export_ : String) :
    EmbeddedResult (OperationSnapshot × LedgerState × ℕ) := do
  refuseIf (w.finalization.isSome ∨ w.pendingCompletion.isSome)
    (busy "operation already owns finalization or terminal completion")
  refuseIf (unnamed export_)
    (invalid "closing export must be nonempty and contain no NUL")
  let _ ← jsonSize (O.serde.textSize export_) O.maxValueBytes
  refuseIf (O.backend = .direct)
    (invalid "finalization checkpoints require a journal worker")
  refuseIf w.gate.isSome checkpointOwned
  refuseIf w.transition.isSome (busy "operation checkpoint is pending")
  let snapshot ← w.snapshot.advanceSnapshot .cleaning
  let (ledger, count) ← EffectLedger.beginFinalization w.ledger
  return (snapshot, ledger, count)

def prepareFinalization (w : OperationWorld) (export_ : String) (business : EmbeddedResult Json) :
    OperationWorld × EmbeddedResult Unit :=
  match O.checkFinalization w export_ with
  | .error e => (w, .error e)
  | .ok (snapshot, ledger, count) =>
    let w := { w with ledger, finalization := some ⟨false, false⟩ }
    (O.retainFinalization w (finalizationCandidate w snapshot export_
      (.bounded O.serde business O.maxValueBytes) count), .ok ())

def pollFinalization (w : OperationWorld) (faults : DriveFaults) :
    OperationWorld × EmbeddedResult Bool :=
  if w.finalization.isNone then (w, .error (.busy "operation has no prepared finalization")) else
  if w.gate.isSome then (w, .ok false) else
  match w.transition with
  | none => (w, .ok w.snapshot.finalization.isSome)
  | some c =>
    if c.snapshot.phase = .cleaning ∧ c.effect = none then O.driveAdvance w .cleaning false faults
    else (w, .error (.busy "another operation checkpoint is pending"))

def checkControl (w : OperationWorld) : EmbeddedResult FinalizationOwnership := do
  refuseIf w.gate.isSome checkpointOwned
  refuseIf w.transition.isSome (busy "finalization intent is not acknowledged")
  refuseIf (w.snapshot.phase ≠ .cleaning ∨ w.snapshot.finalization.isNone)
    (busy "finalization intent is not published")
  let ownership ← okOr w.finalization (busy "operation has no prepared finalization")
  refuseIf ownership.controlIssued
    (EmbeddedError.mk .closed "closing control was already issued")
  return ownership

def takeFinalizationControl (w : OperationWorld) : OperationWorld × EmbeddedResult Unit :=
  match checkControl w with
  | .error e => (w, .error e)
  | .ok ownership =>
    ({ w with finalization := some { ownership with controlIssued := true } }, .ok ())

/-- The checks of `prepare_finalization_outcome`, with the ledger they seal. -/
def checkOutcome (w : OperationWorld) :
    EmbeddedResult (FinalizationOwnership × LedgerState × List HostEffectRecord) := do
  let ownership ← okOr w.finalization (busy "operation has no prepared finalization")
  refuseIf (¬ ownership.controlIssued ∨ ownership.outcomePrepared ∨ w.pendingCompletion.isSome)
    (busy "closing outcome is unavailable or already retained")
  refuseIf w.gate.isSome checkpointOwned
  refuseIf w.transition.isSome (busy "host checkpoint is pending")
  refuseIf (w.snapshot.phase ≠ .cleaning) (busy "operation is outside finalization")
  let (ledger, records) ← EffectLedger.sealRecords w.ledger
  return (ownership, ledger, records)

def prepareFinalizationOutcome (w : OperationWorld) (result : EmbeddedResult Json) :
    OperationWorld × EmbeddedResult Unit :=
  match checkOutcome w with
  | .error e => (w, .error e)
  | .ok (ownership, ledger, records) =>
    let w := { w with ledger, finalization := some { ownership with outcomePrepared := true } }
    (O.retainFinalization w
      (closingCandidate w records (.bounded O.serde result O.maxValueBytes)), .ok ())

/-! ## Completion -/

/-- The checks of `prepare_completion`, with the terminal result and the sealed ledger. -/
def checkCompletion (w : OperationWorld) (result : EmbeddedResult Json) :
    EmbeddedResult (EmbeddedResult Json × LedgerState × List HostEffectRecord) := do
  refuseIf w.pendingCompletion.isSome (busy
    "retry the original retained terminal checkpoint before supplying another outcome")
  refuseIf w.gate.isSome (busy "operation transition is still owned")
  refuseIf w.transition.isSome (busy "operation has a retained phase checkpoint")
  refuseIf (w.snapshot.phase ≠ .cleaning)
    (busy "operation completion requires finished execution and cleanup")
  let terminal ← terminalResult w
    (OperationOutcome.bounded O.serde result O.maxValueBytes).result
  let (ledger, records) ← EffectLedger.sealRecords w.ledger
  return (terminal, ledger, records)

def prepareCompletion (w : OperationWorld) (result : EmbeddedResult Json) (effects : EffectState) :
    OperationWorld × EmbeddedResult Unit :=
  match O.checkCompletion w result with
  | .error e => (w, .error e)
  | .ok (terminal, ledger, records) =>
    ({ w with
      ledger
      pendingCompletion := some (terminalCandidate w records terminal effects) }, .ok ())

def unfinishedExecution : EmbeddedError :=
  .busy "operation completion requires finished execution and cleanup"

/-- The terminal candidate of `drive_completion_checkpoint`. -/
def checkTerminal (w : OperationWorld) : EmbeddedResult OperationSnapshot := do
  refuseIf (w.snapshot.phase ≠ .cleaning) unfinishedExecution
  okOr w.pendingCompletion (busy "operation has no retained terminal checkpoint")

/-- Drives terminal storage; publication is separate. -/
def driveCompletionCheckpoint (w : OperationWorld) (retry : Bool) (faults : DriveFaults) :
    OperationWorld × EmbeddedResult Bool :=
  match checkTerminal w with
  | .error e => (w, .error e)
  | .ok snapshot =>
    match O.backend with
    | .memory => (w, .ok true)
    | .direct => (w, .error (.invalid "nonblocking checkpoints require a journal worker"))
    | .queued =>
      match w.completion with
      | some c => O.drive w .completion c retry faults
      | none => O.drive (w.retain .completion none snapshot) .completion
          ⟨w.candidates, none, none, .waiting, snapshot, .new⟩ retry faults

def publishCompletion (w : OperationWorld) : OperationWorld × EmbeddedResult Unit :=
  if O.backend ≠ .memory ∧ ¬ w.completion.any (·.attempt = .acknowledged) then
    (w, .error (.busy "terminal checkpoint is not acknowledged"))
  else
    match w.snapshot.phase, w.pendingCompletion with
    | .cleaning, some snapshot =>
      ({ w with completion := none, pendingCompletion := none }.publish snapshot, .ok ())
    | _, _ => (w, .error (.busy "operation has no publishable terminal checkpoint"))

/-- `drive_completion`: publishes once the checkpoint is acknowledged. -/
def driveCompletion (w : OperationWorld) (retry : Bool) (faults : DriveFaults) :
    OperationWorld × EmbeddedResult Bool :=
  match O.driveCompletionCheckpoint w retry faults with
  | (w, .ok true) =>
    let (w, result) := O.publishCompletion w
    (w, result.map fun _ => true)
  | (w, result) => (w, result)

/-- `retry_completion` over a direct journal: cancellation is refreshed before the attempt. -/
def retryCompletionDirect (w : OperationWorld) (faults : TransactionFaults) :
    OperationWorld × EmbeddedResult Bool :=
  match checkTerminal w with
  | .error e => (w, .error e)
  | .ok snapshot =>
    let snapshot := { snapshot with cancellationRequested := w.cancelled }
    match O.checkpointDirect { w with pendingCompletion := some snapshot } snapshot faults with
    | (w, .error e) => (w, .error e)
    | (w, .ok ()) => ({ w with pendingCompletion := none }.publish snapshot, .ok true)

/-- `retry_completion` without a history. -/
def retryCompletionMemory (w : OperationWorld) : OperationWorld × EmbeddedResult Bool :=
  match checkTerminal w with
  | .error e => (w, .error e)
  | .ok snapshot =>
    ({ w with pendingCompletion := none }.publish
      { snapshot with cancellationRequested := w.cancelled }, .ok true)

/-- `retry_completion`; over a queue the caller then waits. -/
def retryCompletion (w : OperationWorld) (faults : DriveFaults) (transaction : TransactionFaults) :
    OperationWorld × EmbeddedResult Bool :=
  match O.backend with
  | .memory => retryCompletionMemory w
  | .direct => O.retryCompletionDirect w transaction
  | .queued => O.driveCompletion w true faults

/-- `poll_completion` and `retry_completion_nonblocking`. -/
def pollCompletion (w : OperationWorld) (retry : Bool) (faults : DriveFaults) :
    OperationWorld × EmbeddedResult Bool :=
  match O.backend with
  | .memory => retryCompletionMemory w
  | .direct | .queued => O.driveCompletion w retry faults

/-! ## The host -/

def cancel (w : OperationWorld) : OperationWorld :=
  if w.snapshot.phase.isTerminal then w else { w with cancelled := true }

/-- The checks of `request_checkpoint_retry`; `none` when no candidate is retained. -/
def checkRetry (w : OperationWorld) : EmbeddedResult (Option PendingCheckpoint) :=
  if O.backend = .memory then .ok none else
  if w.gate.isSome then .error (.busy "checkpoint recovery is busy") else
  match w.transition with
  | none => .ok none
  | some c => do
    refuseIf c.failure.isNone (busy "operation checkpoint has not failed")
    match c.attempt with
    | .unobservable _ _ =>
      .error (.busy "checkpoint receipt requires reconciliation before retry")
    | _ => return some c

/-- Requests one retry of the failed candidate that the gate retains. -/
def requestCheckpointRetry (w : OperationWorld) : OperationWorld × EmbeddedResult (Option Bool) :=
  match O.checkRetry w with
  | .error e => (w, .error e)
  | .ok none => (w, .ok none)
  | .ok (some c) =>
    if c.retry ≠ .waiting then (w, .ok (some false)) else
    ({ w with
      retries := w.retries ++ [c.candidate]
      transition := some { c with retry := .requested } }, .ok (some true))

end Operation

end LuaSkills.Embedded
