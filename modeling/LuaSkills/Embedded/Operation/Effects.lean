import Mathlib.Data.List.Basic
import LuaSkills.Embedded.Journal.Record

/-!
# The effect ledger of an operation

The bounded evidence of host effects that an operation shares with its controls. A record is reserved
before a handler may start, moves from prepared to running when the handler is dispatched and is
completed when its unique owner is dropped; it is never removed. Effects are named by their position:
the sequence number of the source is the position plus one.
-/

namespace LuaSkills.Embedded

open EmbeddedError

inductive EffectAdmissionStage where
  | business | finalization
deriving DecidableEq

structure LedgerState where
  stage : EffectAdmissionStage
  isSealed : Bool
  bytes : ℕ
  records : List HostEffectRecord

/-- The immutable part of a ledger, with the size serde gives a record. -/
structure EffectLedger where
  caller : Option CapabilityCaller
  runtimeId : String
  operationId : String
  maxRecords : ℕ
  maxBytes : ℕ
  effectSize : HostEffectRecord → ℕ

namespace EffectLedger

def capacity : EmbeddedError := ⟨.capacityExceeded, "operation effect retention capacity reached"⟩

def poisoned : EmbeddedError := .internal "operation effect journal is inconsistent"

/-- A ledger whose module context already consumed `contextBytes`. -/
def new (contextBytes : ℕ) : LedgerState := ⟨.business, false, contextBytes, []⟩

variable (L : EffectLedger)

def effectId (i : ℕ) : String := L.operationId ++ (":effect:" ++ (i + 1).repr)

/-- Room for the longest phase and effect spellings. -/
def reservedBytes (record : HostEffectRecord) : EmbeddedResult ℕ :=
  jsonSize (L.effectSize { record with phase := .completed, effects := .notApplicable })
    (wordBound - 1)

def preparedRecord (i : ℕ) (caller : CapabilityCaller) (registrationId name version : String) :
    HostEffectRecord :=
  ⟨caller, L.effectId i, registrationId, name, version, none, .prepared, .notStarted⟩

def prepare (s : LedgerState) (stage : EffectAdmissionStage) (caller : CapabilityCaller)
    (registrationId name version : String) : EmbeddedResult LedgerState := do
  refuseIf (caller.runtimeId ≠ L.runtimeId ∨ caller.operationId ≠ L.operationId)
    (invalid "capability caller does not match its operation journal")
  refuseIf (L.caller.any (· ≠ caller))
    (invalid "capability caller does not match admitted module context")
  refuseIf (s.isSealed ∨ s.stage ≠ stage)
    (EmbeddedError.mk .closed "operation effect journal is sealed for this execution stage")
  refuseIf (s.records.length ≥ L.maxRecords) capacity
  let _ ← okOr (checkedAdd s.records.length 1) capacity
  let record := L.preparedRecord s.records.length caller registrationId name version
  let bytes ← L.reservedBytes record
  let total ← okOr ((checkedAdd s.bytes bytes).filter (· ≤ L.maxBytes)) capacity
  return { s with bytes := total, records := s.records ++ [record] }

/-- Attaches the identity of a queued request before its delivery. -/
def bindRequest (s : LedgerState) (i : ℕ) (requestId : String) : EmbeddedResult LedgerState := do
  let record ← okOr s.records[i]? poisoned
  refuseIf (record.phase ≠ .prepared ∨ record.requestId.isSome)
    (busy "host request identity is already frozen")
  let oldBytes ← L.reservedBytes record
  let updated := { record with requestId := some requestId }
  let newBytes ← L.reservedBytes updated
  let total ← okOr (((checkedSub s.bytes oldBytes).bind (checkedAdd · newBytes)).filter
    (· ≤ L.maxBytes)) capacity
  return { s with bytes := total, records := s.records.set i updated }

/-- Records dispatch before external execution. -/
def beginEffect (s : LedgerState) (i : ℕ) : EmbeddedResult LedgerState := do
  let record ← okOr s.records[i]? poisoned
  refuseIf (record.phase ≠ .prepared) (busy "host effect was already dispatched")
  return { s with records := s.records.set i { record with phase := .running, effects := .unknown } }

/-- Preserves the evidence a handler returned. -/
def observe (s : LedgerState) (i : ℕ) (effects : EffectState) : LedgerState :=
  { s with records := s.records.modify i fun record => { record with effects } }

def dropAttempt (s : LedgerState) (i : ℕ) : LedgerState :=
  { s with records := s.records.modify i fun record => { record with phase := .completed } }

/-- Some handler still owns its admission. -/
def unfinished (s : LedgerState) : Prop := ∃ record ∈ s.records, record.phase ≠ .completed

instance {s : LedgerState} : Decidable (unfinished s) := inferInstanceAs (Decidable (∃ _ ∈ _, _))

/-- Closes business admission; returns the frozen number of business effects. -/
def beginFinalization (s : LedgerState) : EmbeddedResult (LedgerState × ℕ) := do
  refuseIf (s.isSealed ∨ s.stage ≠ .business)
    (EmbeddedError.mk .closed "operation finalization was already prepared or sealed")
  refuseIf (unfinished s)
    (busy "business host handlers have not finished execution and cleanup")
  return ({ s with stage := .finalization }, s.records.length)

/-- Closes admission for good; returns the evidence. -/
def sealRecords (s : LedgerState) : EmbeddedResult (LedgerState × List HostEffectRecord) := do
  refuseIf (unfinished s)
    (busy "host handlers have not finished execution and cleanup")
  return ({ s with isSealed := true }, s.records)

end EffectLedger

end LuaSkills.Embedded
