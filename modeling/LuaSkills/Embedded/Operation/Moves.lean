import Mathlib.Logic.Relation
import LuaSkills.Embedded.Journal.Worker.Runs
import LuaSkills.Embedded.Operation.System

/-!
# Moves of a queued operation

Every call on an operation with a queued history is a sequence of the moves below, each of which
changes one thing and names the checks that allow it. Invariants are proved move by move; no proof
about a run reads the calls themselves. An `Allowance` restricts the moves further: the states in which
a candidate of the phase or of an effect is captured, whether retries may be requested, and what the
other users of the writer and of the journal do.
-/

namespace LuaSkills.Embedded

def Attempt.receipt? : Attempt → Option ℕ
  | .submitted id | .unobservable id _ => some id
  | _ => none

/-- The attempt that an admission or its refusal leaves. -/
def Attempt.ofSubmission : EmbeddedResult ℕ → Attempt
  | .ok id => .submitted id
  | .error e => .failed e

namespace OperationWorld

@[simp] theorem slot_setSlot (w : OperationWorld) (σ : Slot) (c : Option PendingCheckpoint) :
    (w.setSlot σ c).slot σ = c := by
  cases σ <;> rfl

theorem slot_setSlot_ne (w : OperationWorld) (h : τ ≠ σ) (c : Option PendingCheckpoint) :
    (w.setSlot σ c).slot τ = w.slot τ := by
  cases σ <;> cases τ <;> first | rfl | exact absurd rfl h

theorem setSlot_self {w : OperationWorld} (h : w.slot σ = c) : w.setSlot σ c = w := by
  cases σ <;> subst h <;> rfl

end OperationWorld

namespace Operation

inductive LedgerMove (O : Operation) (w : OperationWorld) : LedgerState → Prop where
  | reserve {stage : EffectAdmissionStage} {caller : CapabilityCaller}
    {registrationId name version : String} {ledger : LedgerState} :
    O.reserveEffect w stage caller registrationId name version = .ok ledger → LedgerMove O w ledger
  | bind {i : ℕ} {requestId : String} {ledger : LedgerState} :
    O.effects.bindRequest w.ledger i requestId = .ok ledger → LedgerMove O w ledger
  | begin {i : ℕ} {ledger : LedgerState} : i ∈ w.authorized →
    EffectLedger.beginEffect w.ledger i = .ok ledger → LedgerMove O w ledger
  | observe {i : ℕ} (effects : EffectState) : attemptAlive w i →
    LedgerMove O w (EffectLedger.observe w.ledger i effects)
  | drop (i : ℕ) : LedgerMove O w (EffectLedger.dropAttempt w.ledger i)

inductive Captured (w : OperationWorld) : Option CheckpointEffect → OperationSnapshot → Prop where
  | phase {phase : OperationPhase} {snapshot : OperationSnapshot} :
    advanceCandidate w phase = .ok snapshot → Captured w none snapshot
  | start {effectId : String} {snapshot : OperationSnapshot} :
    startCandidate w effectId = .ok snapshot → Captured w (some (.start effectId)) snapshot
  | outcome {effectId : String} {snapshot : OperationSnapshot} :
    outcomeCandidate w effectId = .ok snapshot → Captured w (some (.outcome effectId)) snapshot

/-- Side conditions on the moves of a call. -/
structure Allowance where
  capture : OperationWorld → Option CheckpointEffect → Prop
  retry : Prop
  writer : WriterCall → Prop

theorem Allowance.observes (K : Allowance) : (false : Bool) = true → K.retry := nofun

/-- What driving or retrying a retained candidate does: the world beside its slot, and the candidate
as the slot holds it afterwards. -/
inductive Progress (O : Operation) (K : Allowance) (w : OperationWorld) (c : PendingCheckpoint) :
    OperationWorld → PendingCheckpoint → Prop where
  | permit {retry : Bool} : retry ∨ c.retry = .requested → (retry → K.retry) →
    Progress O K w c
      { w with retries := if retry ∧ c.attempt.isFailed then w.retries ++ [c.candidate] else w.retries }
      { c with retry := .retrying, attempt := if c.attempt.isFailed then .new else c.attempt }
  | submit (queuePoisoned : Bool) : c.attempt = .new →
    Progress O K w c
      { w with
        writer := (O.center.submitRequest w.writer (O.request w c.snapshot) queuePoisoned).1
        submissions := w.submissions ++ [⟨c.candidate, c.snapshot, w.revision⟩] }
      { c with
        attempt := .ofSubmission
          (O.center.submitRequest w.writer (O.request w c.snapshot) queuePoisoned).2 }
  | lose {id : ℕ} : c.attempt = .submitted id →
    Progress O K w c w { c with attempt := .unobservable id WriterCenter.poisoned }
  | acknowledge {id next : ℕ} {receipt : ReceiptState} : c.attempt = .submitted id →
    w.writer.receipts[id]? = some receipt → receipt.snapshot = .ofResult (.ok next) →
    Progress O K w c
      { w with
        writer := O.center.perform w.writer (.dropReceipt id)
        revision := some next
        acknowledged := w.acknowledged ++ [(next, c.snapshot)] }
      { c with attempt := .acknowledged }
  | fail {id : ℕ} {receipt : ReceiptState} {error : EmbeddedError} : c.attempt = .submitted id →
    w.writer.receipts[id]? = some receipt → receipt.snapshot = .ofResult (.error error) →
    Progress O K w c { w with writer := O.center.perform w.writer (.dropReceipt id) }
      { c with attempt := .failed error }
  | settle : c.attempt = .acknowledged → Progress O K w c w { c with failure := none }
  | report {error : EmbeddedError} :
    c.attempt = .failed error ∨ (∃ id, c.attempt = .unobservable id error) →
    Progress O K w c w { c with failure := some error, retry := .waiting }
  | request : K.retry → c.failure.isSome → c.retry = .waiting →
    (∀ id e, c.attempt ≠ .unobservable id e) →
    Progress O K w c { w with retries := w.retries ++ [c.candidate] } { c with retry := .requested }

structure Continues (c c' : PendingCheckpoint) : Prop where
  candidate : c'.candidate = c.candidate
  effect : c'.effect = c.effect
  snapshot : c'.snapshot = c.snapshot

theorem Continues.refl (c : PendingCheckpoint) : Continues c c := ⟨rfl, rfl, rfl⟩

theorem Continues.trans (h : Continues c₁ c₂) (h' : Continues c₂ c₃) : Continues c₁ c₃ :=
  ⟨h'.candidate.trans h.candidate, h'.effect.trans h.effect, h'.snapshot.trans h.snapshot⟩

/-- What progress on a candidate leaves alone. -/
structure Beside (w v : OperationWorld) : Prop where
  snapshot : v.snapshot = w.snapshot
  ledger : v.ledger = w.ledger
  finalization : v.finalization = w.finalization
  pendingCompletion : v.pendingCompletion = w.pendingCompletion
  slot : ∀ τ, v.slot τ = w.slot τ
  authorized : v.authorized = w.authorized
  published : v.published = w.published

section
variable {O : Operation} {K : Allowance} {w v : OperationWorld} {c c' : PendingCheckpoint}

theorem Progress.continues (h : Progress O K w c v c') : Continues c c' := by
  cases h <;> exact ⟨rfl, rfl, rfl⟩

theorem Progress.beside (h : Progress O K w c v c') : Beside w v := by
  cases h <;> exact ⟨rfl, rfl, rfl, rfl, fun _ => rfl, rfl, rfl⟩

end

/-- The start of the effect at position `i` is part of the last acknowledged record. -/
def Started (O : Operation) (w : OperationWorld) (i : ℕ) : Prop :=
  ∃ m s, w.acknowledged.getLast? = some (m, s) ∧
    ∃ r ∈ s.hostEffects, r.effectId = O.effects.effectId i ∧ r.phase = .running

inductive Move (O : Operation) (K : Allowance)
    (w : OperationWorld) : OperationWorld → Prop where
  | writer {call : WriterCall} : O.foreign w.writer call → K.writer call →
    Move O K w { w with writer := O.center.perform w.writer call }
  | cancel : Move O K w { w with cancelled := true }
  | gate {gate : Option Blocked} : (gate.isSome → w.pendingCompletion = none) →
    Move O K w { w with gate }
  | ledger {ledger : LedgerState} : LedgerMove O w ledger → Move O K w { w with ledger }
  | capture {effect : Option CheckpointEffect} {snapshot : OperationSnapshot} :
    w.transition = none → w.pendingCompletion = none → K.capture w effect → Captured w effect snapshot →
    Move O K w (w.retain .transition effect snapshot)
  | finalize {export_ : String} {business : OperationOutcome} {snapshot : OperationSnapshot}
    {ledger : LedgerState} {count : ℕ} :
    O.checkFinalization w export_ = .ok (snapshot, ledger, count) →
    Move O K w ({ w with ledger, finalization := some ⟨false, false⟩ }.retain .transition none
      (finalizationCandidate { w with ledger, finalization := some ⟨false, false⟩ } snapshot export_
        business count))
  | issue {ownership : FinalizationOwnership} : checkControl w = .ok ownership →
    Move O K w { w with finalization := some { ownership with controlIssued := true } }
  | close {ownership : FinalizationOwnership} {ledger : LedgerState}
    {records : List HostEffectRecord} {outcome : OperationOutcome} :
    checkOutcome w = .ok (ownership, ledger, records) →
    Move O K w ({ w with
        ledger
        finalization := some { ownership with outcomePrepared := true } }.retain .transition none
      (closingCandidate { w with
        ledger
        finalization := some { ownership with outcomePrepared := true } } records outcome))
  | complete {result terminal : EmbeddedResult Json} {ledger : LedgerState}
    {records : List HostEffectRecord} {effects : EffectState} :
    O.checkCompletion w result = .ok (terminal, ledger, records) →
    Move O K w { w with
      ledger
      pendingCompletion := some (terminalCandidate w records terminal effects) }
  | retain {snapshot : OperationSnapshot} : checkTerminal w = .ok snapshot → w.completion = none →
    Move O K w (w.retain .completion none snapshot)
  | progress {σ : Slot} {c c' : PendingCheckpoint} {v : OperationWorld} : w.slot σ = some c →
    Progress O K w c v c' → Move O K w (v.setSlot σ (some c'))
  | consume {c : PendingCheckpoint} : w.transition = some c → c.attempt = .acknowledged →
    c.effect.isSome → Move O K w (consume w)
  | publishPhase {c : PendingCheckpoint} : w.transition = some c → c.attempt = .acknowledged →
    c.effect = none → Move O K w (Operation.consume (w.publish c.snapshot))
  | authorize {i : ℕ} : w.transition = none → Started O w i →
    Move O K w { w with authorized := w.authorized ++ [i] }
  | publishCompletion {c : PendingCheckpoint} {snapshot : OperationSnapshot} :
    w.completion = some c → c.attempt = .acknowledged → w.snapshot.phase = .cleaning →
    w.pendingCompletion = some snapshot →
    Move O K w ({ w with completion := none, pendingCompletion := none }.publish snapshot)

abbrev Moves (O : Operation) (K : Allowance) :
    OperationWorld → OperationWorld → Prop := Relation.ReflTransGen (Move O K)

end Operation

end LuaSkills.Embedded
