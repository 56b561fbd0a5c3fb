import LuaSkills.Data.AssocMap
import LuaSkills.Embedded.Journal.Evidence

/-!
# The SQLite journal

One table keyed by runtime and operation identity; each row holds a revision, the encoded record and
its digest. Every mutation runs in one transaction behind the journal's lock. What SQLite may do to a
transaction is a parameter of the call: `TransactionFaults` lets it refuse to begin, fail a statement,
lose the rollback, or lose the confirmation of a commit that was or was not applied. An unproven
commit or rollback is sticky: it blocks every call until `recoverStorage` has reopened the database
and decoded all of its rows.
-/

namespace LuaSkills.Embedded

structure OperationJournalConfig where
  maxRecords : ℕ
  maxRecordBytes : ℕ

/-- The columns of a row beside its key. -/
structure JournalRow where
  revision : ℤ
  document : List UInt8
  digest : List UInt8

/-- Runtime and operation identity. -/
abbrev JournalKey := String × String

abbrev JournalTable := AssocMap JournalKey JournalRow

/-- The durable table, the connection and the sticky unproven-commit failure. -/
structure JournalState where
  table : JournalTable
  connected : Bool
  failure : Option EmbeddedError

/-- The linked serializer and the immutable limits. -/
structure OperationJournal where
  serde : Serde
  config : OperationJournalConfig

inductive CommitOutcome where
  | confirmed
  | lost (applied : Bool)

structure TransactionFaults where
  begin? : Option EmbeddedError
  statement? : Option EmbeddedError
  rolledBack : Bool
  commit : CommitOutcome

/-- A transaction that SQLite carries out. -/
def TransactionFaults.none : TransactionFaults := ⟨.none, .none, true, .confirmed⟩

/-- The result of a mutation whose statements may fail; a failed statement has written nothing. -/
def TransactionFaults.through (faults : TransactionFaults) (x : EmbeddedResult JournalTable) :
    EmbeddedResult JournalTable :=
  match faults.statement? with
  | some e => .error e
  | .none => x

/-- What SQLite does to one recovery. -/
structure RecoveryFaults where
  close? : Option EmbeddedError
  reopen? : Option EmbeddedError
  read? : Option EmbeddedError

def RecoveryFaults.none : RecoveryFaults := ⟨.none, .none, .none⟩

/-- The largest signed 64-bit value. -/
def maxRevision : ℕ := 2 ^ 63 - 1

namespace OperationJournal

def capacity : EmbeddedError :=
  ⟨.capacityExceeded, "operation history exceeds configured retention limits"⟩

def corrupt : EmbeddedError := ⟨.internal, "operation history record is corrupt"⟩

def uncertain : EmbeddedError :=
  ⟨.internal, "operation history commit is uncertain; close and reconcile before further mutations"⟩

def missing : EmbeddedError := .notFound "operation history was not found"

def stale : EmbeddedError := ⟨.staleGeneration, "operation history revision changed"⟩

def exhausted : EmbeddedError := .invalid "operation history revision is exhausted or invalid"

variable (J : OperationJournal)

def validateKey (key : JournalKey) : EmbeddedResult Unit := do
  refuseIf (key.1.isEmpty ∨ key.2.isEmpty)
    (EmbeddedError.invalid "operation history identities must not be empty")
  refuseIf (key.1.utf8ByteSize > J.config.maxRecordBytes ∨
    key.2.utf8ByteSize > J.config.maxRecordBytes) capacity

def encode (record : JournalOperation) : EmbeddedResult (List UInt8) := do
  J.validateKey (record.runtimeId, record.snapshot.operationId)
  let document := J.serde.encode record
  let _ ← jsonSize document.length J.config.maxRecordBytes
  return document

/-- Any other failure inside `decode` reports corruption. -/
def orCorrupt {α : Type} (x : EmbeddedResult α) : EmbeddedResult α := x.mapError fun _ => corrupt

def decode (key : JournalKey) (row : JournalRow) : EmbeddedResult JournalOperation := do
  refuseIf (row.document.length > J.config.maxRecordBytes) capacity
  refuseIf (J.serde.digest row.document ≠ row.digest) corrupt
  let record ← okOr (J.serde.decode row.document) corrupt
  refuseIf (key.1.isEmpty ∨ key.2.isEmpty ∨ record.runtimeId ≠ key.1 ∨
    record.snapshot.operationId ≠ key.2 ∨ row.revision ≤ 0 ∨
    (record.revision : ℤ) ≠ row.revision) corrupt
  orCorrupt (validateCallers key.1 record.snapshot)
  match record.reconciliation with
  | some reconciliation =>
    refuseIf (record.revision < 2) corrupt
    orCorrupt (reconciliation.validate record.snapshot)
    return record
  | none => return record

def read (table : JournalTable) (key : JournalKey) : EmbeddedResult (Option JournalOperation) :=
  match table.lookup key with
  | some row => (J.decode key row).map some
  | none => .ok none

def row (revision : ℕ) (document : List UInt8) : JournalRow :=
  ⟨revision, document, J.serde.digest document⟩

def validateContents (table : JournalTable) : EmbeddedResult Unit := do
  refuseIf (table.size > J.config.maxRecords) capacity
  table.entries.forM fun entry => (J.decode entry.1 entry.2).map fun _ => ()

/-! ## Mutations -/

def successor : Option ℕ → EmbeddedResult ℕ
  | none => .ok 1
  | some previous =>
    if 0 < previous ∧ previous < maxRevision then .ok (previous + 1) else .error exhausted

/-- A reconciling write finds its own record already committed. -/
def committedBy (reconcile : Bool) (current : Option JournalOperation) (revision : ℕ)
    (document : List UInt8) : EmbeddedResult Bool :=
  match reconcile, current with
  | true, some current =>
    if current.revision = revision then return (← J.encode current) = document else .ok false
  | _, _ => .ok false

/-- The body of the transaction of `writeCheckpoint`. -/
def writeMutation (previous : Option ℕ) (record : JournalOperation) (document : List UInt8)
    (reconcile : Bool) (table : JournalTable) : EmbeddedResult JournalTable := do
  let key := (record.runtimeId, record.snapshot.operationId)
  let current ← J.read table key
  let done ← J.committedBy reconcile current record.revision document
  if done then return table else
  match previous with
  | none =>
    refuseIf current.isSome ⟨.alreadyCompleted, "operation history identity already exists"⟩
    refuseIf (table.size ≥ J.config.maxRecords) capacity
    return table.insert key (J.row record.revision document)
  | some previous =>
    let current ← okOr current missing
    refuseIf (current.revision ≠ previous) stale
    refuseIf (current.snapshot.context ≠ record.snapshot.context)
      (EmbeddedError.invalid "operation history context is immutable")
    record.snapshot.validateFinalizationSuccessor current.snapshot
    refuseIf current.reconciliation.isSome
      ⟨.alreadyCompleted, "reconciled operation history is immutable"⟩
    return table.insert key (J.row record.revision document)

def reconcileMutation (key : JournalKey) (expected : ℕ) (resolution : OperationReconciliation)
    (table : JournalTable) : EmbeddedResult JournalTable := do
  let record ← okOr (← J.read table key) missing
  if record.revision = expected + 1 ∧ record.reconciliation = some resolution then return table else
  refuseIf (record.revision ≠ expected) stale
  refuseIf record.reconciliation.isSome
    ⟨.alreadyCompleted, "operation history already has a final reconciliation"⟩
  resolution.validate record.snapshot
  let record := { record with revision := expected + 1, reconciliation := some resolution }
  let document ← J.encode record
  return table.insert key (J.row (expected + 1) document)

def forgetMutation (key : JournalKey) (expected : ℕ) (table : JournalTable) :
    EmbeddedResult JournalTable := do
  let record ← okOr (← J.read table key) missing
  refuseIf (record.revision ≠ expected) stale
  refuseIf (¬ record.resolved) (EmbeddedError.busy "unresolved operation history cannot be forgotten")
  return table.erase key

/-! ## Calls -/

def lock (s : JournalState) : EmbeddedResult Unit :=
  match s.failure with
  | some error => .error error
  | none => if s.connected then .ok () else .error uncertain

/-- One atomic mutation; an unproven commit or rollback is kept as a sticky failure. -/
def transaction (s : JournalState) (faults : TransactionFaults)
    (mutation : JournalTable → EmbeddedResult JournalTable) : JournalState × EmbeddedResult Unit :=
  match lock s, faults.begin? with
  | .error e, _ => (s, .error e)
  | .ok _, some e => (s, .error e)
  | .ok _, none =>
    match faults.through (mutation s.table) with
    | .ok table =>
      match faults.commit with
      | .confirmed => ({ s with table }, .ok ())
      | .lost applied =>
        ({ s with
          table := if applied then table else s.table
          failure := some uncertain }, .error uncertain)
    | .error e =>
      if faults.rolledBack then (s, .error e)
      else ({ s with failure := some uncertain }, .error uncertain)

/-- A call that is refused before its transaction leaves the state. -/
def guarded {α β : Type} (s : JournalState) (x : EmbeddedResult α)
    (f : α → JournalState × EmbeddedResult β) : JournalState × EmbeddedResult β :=
  match x with
  | .ok a => f a
  | .error e => (s, .error e)

/-- The checks of `writeCheckpoint` before its transaction; returns the candidate and its bytes. -/
def prepareWrite (runtimeId : String) (previous : Option ℕ) (snapshot : OperationSnapshot) :
    EmbeddedResult (JournalOperation × List UInt8) := do
  J.validateKey (runtimeId, snapshot.operationId)
  validateCallers runtimeId snapshot
  let _ ← jsonSize (J.serde.snapshotSize snapshot) J.config.maxRecordBytes
  let revision ← successor previous
  let record : JournalOperation := ⟨runtimeId, revision, snapshot, none⟩
  let document ← J.encode record
  return (record, document)

def writeCheckpoint (s : JournalState) (runtimeId : String) (previous : Option ℕ)
    (snapshot : OperationSnapshot) (reconcile : Bool) (faults : TransactionFaults) :
    JournalState × EmbeddedResult JournalOperation :=
  guarded s (J.prepareWrite runtimeId previous snapshot) fun (record, document) =>
    let (s', result) := transaction s faults (J.writeMutation previous record document reconcile)
    (s', result.map fun _ => record)

/-- The checks of `reconcile` before its transaction. -/
def prepareReconcile (key : JournalKey) (expected : ℕ) (resolution : OperationReconciliation) :
    EmbeddedResult Unit := do
  J.validateKey key
  let _ ← jsonSize (J.serde.reconciliationSize resolution) J.config.maxRecordBytes
  refuseIf (expected = 0 ∨ expected ≥ maxRevision) exhausted

def reconcile (s : JournalState) (key : JournalKey) (expected : ℕ)
    (resolution : OperationReconciliation) (faults : TransactionFaults) :
    JournalState × EmbeddedResult ℕ :=
  guarded s (J.prepareReconcile key expected resolution) fun _ =>
    let (s', result) := transaction s faults (J.reconcileMutation key expected resolution)
    (s', result.map fun _ => expected + 1)

def forget (s : JournalState) (key : JournalKey) (expected : ℕ) (faults : TransactionFaults) :
    JournalState × EmbeddedResult Unit :=
  guarded s (J.validateKey key) fun _ => transaction s faults (J.forgetMutation key expected)

/-- Reopens the same database after an unproven transaction and validates all of it. -/
def recoverStorage (s : JournalState) (faults : RecoveryFaults) :
    JournalState × EmbeddedResult Bool :=
  match s.failure with
  | none => (s, .ok false)
  | some _ =>
    match (if s.connected then faults.close? else none) with
    | some e => (s, .error e)
    | none =>
      let s := { s with connected := false }
      match faults.reopen?, faults.read?, J.validateContents s.table with
      | some e, _, _ => (s, .error e)
      | none, some e, _ => (s, .error e)
      | none, none, .error e => (s, .error e)
      | none, none, .ok () => ({ s with connected := true, failure := none }, .ok true)

end OperationJournal

/-- One call of the journal's interface, with what SQLite does to it. -/
inductive JournalCall where
  | writeCheckpoint (runtimeId : String) (previous : Option ℕ) (snapshot : OperationSnapshot)
    (reconcile : Bool) (faults : TransactionFaults)
  | reconcile (key : JournalKey) (expected : ℕ) (resolution : OperationReconciliation)
    (faults : TransactionFaults)
  | forget (key : JournalKey) (expected : ℕ) (faults : TransactionFaults)
  | recoverStorage (faults : RecoveryFaults)

namespace OperationJournal

def created : JournalState := ⟨∅, true, none⟩

def perform (J : OperationJournal) (s : JournalState) :
    JournalCall → JournalState × EmbeddedResult Unit
  | .writeCheckpoint runtimeId previous snapshot reconcile faults =>
    let (s', result) := J.writeCheckpoint s runtimeId previous snapshot reconcile faults
    (s', result.map fun _ => ())
  | .reconcile key expected resolution faults =>
    let (s', result) := J.reconcile s key expected resolution faults
    (s', result.map fun _ => ())
  | .forget key expected faults => J.forget s key expected faults
  | .recoverStorage faults =>
    let (s', result) := J.recoverStorage s faults
    (s', result.map fun _ => ())

/-- The state after further calls. -/
def runFrom (J : OperationJournal) (s : JournalState) (calls : List JournalCall) : JournalState :=
  calls.foldl (fun s call => (J.perform s call).1) s

def run (J : OperationJournal) (calls : List JournalCall) : JournalState := J.runFrom created calls

end OperationJournal

end LuaSkills.Embedded
