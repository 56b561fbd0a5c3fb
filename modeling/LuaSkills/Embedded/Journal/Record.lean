import LuaSkills.Embedded.Operation.Snapshot

/-!
# Journal records

A stored record is an operation snapshot with its compare-and-swap revision and, once the host has
attested how the operation ended, a reconciliation. `Serde` stands for the serializer and the digest
the adapter links: byte lengths of the values whose size is bounded, and an encoding of records that
its decoder inverts.
-/

namespace LuaSkills.Embedded

/-- Resolved effects; unknown is not among them. -/
inductive ResolvedEffectState where
  | notStarted | notApplicable | committed | rolledBack
deriving DecidableEq, Countable

def ResolvedEffectState.toEffectState : ResolvedEffectState → EffectState
  | .notStarted => .notStarted
  | .notApplicable => .notApplicable
  | .committed => .committed
  | .rolledBack => .rolledBack

/-- Execution closure asserted by the host. -/
inductive ReconciledExecution where
  | observedTerminal | stoppedWithoutResult
deriving DecidableEq, Countable

structure HostEffectReconciliation where
  effectId : String
  effects : ResolvedEffectState
  evidence : String
deriving DecidableEq, Countable

/-- Final host attestation covering execution closure and every retained effect. -/
structure OperationReconciliation where
  resolutionId : String
  resolver : String
  evidence : String
  execution : ReconciledExecution
  effects : ResolvedEffectState
  hostEffects : List HostEffectReconciliation
deriving DecidableEq, Countable

namespace OperationReconciliation

/-- The loop over the original effects and their resolutions; `seen` holds the identities already
covered. Returns the effects as resolved. -/
def project : List HostEffectRecord → List HostEffectReconciliation → List String →
    EmbeddedResult (List HostEffectRecord)
  | original :: rest, resolution :: resolutions, seen => do
    refuseIf (original.effectId.isEmpty ∨ original.effectId ≠ resolution.effectId ∨
        original.effectId ∈ seen ∨ trimIsEmpty resolution.evidence ∨
        (original.effects ≠ .unknown ∧ original.effects ≠ resolution.effects.toEffectState))
      (.invalid "reconciliation must preserve every original effect identity and known outcome")
    let projected ← project rest resolutions (original.effectId :: seen)
    return { original with
      effects := resolution.effects.toEffectState, phase := .completed } :: projected
  | rest, _, _ => .ok rest

def validate (r : OperationReconciliation) (snapshot : OperationSnapshot) :
    EmbeddedResult Unit := do
  refuseIf (trimIsEmpty r.resolutionId ∨ trimIsEmpty r.resolver ∨ trimIsEmpty r.evidence ∨
      (decide (r.execution = .observedTerminal) ≠ snapshot.phase.isTerminal) ∨
      r.hostEffects.length ≠ snapshot.hostEffects.length)
    (.invalid
      "reconciliation requires complete evidence and matching original execution closure")
  let resolved := r.effects.toEffectState
  refuseIf (snapshot.effects ≠ .unknown ∧ snapshot.effects ≠ resolved)
    (.invalid "reconciliation contradicts known operation effects")
  let projected ← project snapshot.hostEffects r.hostEffects []
  refuseIf (mergeEffects resolved projected ≠ resolved)
    (.invalid "reconciliation aggregate contradicts its resolved host effects")

end OperationReconciliation

structure JournalOperation where
  runtimeId : String
  revision : ℕ
  snapshot : OperationSnapshot
  reconciliation : Option OperationReconciliation
deriving DecidableEq, Countable

/-- Evidence that may be deleted: reconciled, or terminal with every effect known. -/
def JournalOperation.resolved (record : JournalOperation) : Bool :=
  record.reconciliation.isSome ||
    (record.snapshot.phase.isTerminal && record.snapshot.effects ≠ .unknown &&
      record.snapshot.hostEffects.all fun e => e.phase = .completed && e.effects ≠ .unknown)

/-- The caller checks of a stored snapshot against its runtime. -/
def validateCallers (runtimeId : String) (snapshot : OperationSnapshot) : EmbeddedResult Unit := do
  snapshot.validateFinalization
  snapshot.context.validate runtimeId snapshot.operationId
  snapshot.hostEffects.forM fun effect => do
    effect.caller.validate runtimeId
    refuseIf (snapshot.context.caller.any (· ≠ effect.caller))
      (EmbeddedError.invalid "historical effect caller contradicts its operation context")
    refuseIf (effect.caller.operationId ≠ snapshot.operationId)
      (EmbeddedError.invalid "historical effect caller does not match its operation")

/-- What the linked serializer and digest compute. -/
structure Serde where
  valueSize : Json → ℕ
  errorSize : EmbeddedError → ℕ
  textSize : String → ℕ
  effectSize : HostEffectRecord → ℕ
  snapshotSize : OperationSnapshot → ℕ
  reconciliationSize : OperationReconciliation → ℕ
  encode : JournalOperation → List UInt8
  decode : List UInt8 → Option JournalOperation
  decode_encode : ∀ record, decode (encode record) = some record
  digest : List UInt8 → List UInt8

theorem Serde.encode_inj {serde : Serde} (h : serde.encode r = serde.encode r') : r = r' := by
  have := serde.decode_encode r
  rw [h, serde.decode_encode] at this
  exact (Option.some.inj this).symm

/-- The serialized size, within `limit`. -/
def jsonSize (size limit : ℕ) : EmbeddedResult ℕ := do
  refuseIf (size > limit) ⟨.capacityExceeded, "JSON value exceeds its configured byte limit"⟩
  return size

end LuaSkills.Embedded
