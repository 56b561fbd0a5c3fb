import LuaSkills.Data.Json
import LuaSkills.Embedded.Config

/-!
# Operation snapshots

The observation of one operation that every SDK sees and the journal stores: its phase, its frozen
module authority, the evidence of its host effects and, once it closes, the separate outcomes of the
business and of the closing stage. The validators are the ones the journal runs before it accepts or
restores a snapshot.
-/

namespace LuaSkills.Embedded

inductive OperationPhase where
  | queued | initializing | running | waitingForHost | cleaning | succeeded | failed | cancelled
deriving DecidableEq, Countable

def OperationPhase.isTerminal : OperationPhase → Bool
  | .succeeded | .failed | .cancelled => true
  | _ => false

/-- Host-reported effect outcome. -/
inductive EffectState where
  | notStarted | notApplicable | committed | rolledBack | unknown
deriving DecidableEq, Countable

/-! ## Authority -/

/-- The text is empty after trimming or contains NUL. -/
def unnamed (text : String) : Bool := trimIsEmpty text || text.toList.contains (Char.ofNat 0)

/-- Host-authenticated caller data. -/
structure CapabilityCaller where
  runtimeId : String
  pluginId : String
  packageGeneration : String
  executionRevision : String
  securityPartition : String
  operationId : String
  requestId : Option String
  sessionId : Option String
  workspaceRoot : Option String
deriving DecidableEq, Countable

def CapabilityCaller.validate (c : CapabilityCaller) (runtimeId : String) : EmbeddedResult Unit :=
  refuseIf (c.runtimeId ≠ runtimeId ∨
      [c.pluginId, c.packageGeneration, c.executionRevision, c.securityPartition,
        c.operationId].any unnamed ∨
      c.sessionId.any unnamed ∨ c.requestId.any unnamed)
    (.invalid "capability caller identity is invalid")

/-- Module identity frozen before scheduling. -/
structure ModuleOperationContext where
  prewarm : Bool
  finalizationInstanceId : Option String
  poolId : String
  caller : CapabilityCaller
  capabilityRevision : String
  export? : Option String
deriving DecidableEq, Countable

/-- Explicit operation origin. -/
inductive OperationContext where
  | unbound
  | module (context : ModuleOperationContext)
deriving DecidableEq, Countable

def OperationContext.caller : OperationContext → Option CapabilityCaller
  | .unbound => none
  | .module context => some context.caller

def OperationContext.validate (c : OperationContext) (runtimeId operationId : String) :
    EmbeddedResult Unit :=
  match c with
  | .unbound => .ok ()
  | .module context => do
    context.caller.validate runtimeId
    refuseIf (context.caller.operationId ≠ operationId ∨
        [context.poolId, context.capabilityRevision].any unnamed ∨
        context.export?.any unnamed ∨
        (context.prewarm ∧ (context.export?.isSome ∨ context.caller.sessionId.isSome)) ∨
        (¬ context.prewarm ∧ context.export?.isNone ∧ context.caller.sessionId.isNone) ∨
        context.finalizationInstanceId.any fun id => unnamed id || context.export?.isNone)
      (.invalid "operation module context is invalid")

/-! ## Host effects -/

/-- Actual handler lifecycle. -/
inductive HostEffectPhase where
  | prepared | running | completed
deriving DecidableEq, Countable

structure HostEffectRecord where
  caller : CapabilityCaller
  effectId : String
  registrationId : String
  capabilityName : String
  capabilityVersion : String
  requestId : Option String
  phase : HostEffectPhase
  effects : EffectState
deriving DecidableEq, Countable

/-- Merges the owner's evidence with the host's observations. -/
def mergeEffects (base : EffectState) (records : List HostEffectRecord) : EffectState :=
  if base = .unknown ∨ records.any fun r => r.phase ≠ .completed ∨ r.effects = .unknown then
    .unknown
  else if base = .committed ∨ records.any fun r => r.effects = .committed then .committed
  else if base = .rolledBack ∨ records.any fun r => r.effects = .rolledBack then .rolledBack
  else if base = .notApplicable ∨ records.any fun r => r.effects = .notApplicable then
    .notApplicable
  else .notStarted

/-! ## Outcomes -/

deriving instance Countable for EmbeddedErrorCode

deriving instance Countable for EmbeddedError

inductive OperationOutcome where
  | succeeded (value : Json)
  | failed (error : EmbeddedError)
deriving DecidableEq, Countable

def OperationOutcome.result : OperationOutcome → EmbeddedResult Json
  | .succeeded value => .ok value
  | .failed error => .error error

/-- Equality of outcomes, their values compared as parsed values. -/
def OperationOutcome.Same : OperationOutcome → OperationOutcome → Prop
  | .succeeded v, .succeeded w => v.Same w
  | .failed e, .failed e' => e = e'
  | _, _ => False

instance {o o' : OperationOutcome} : Decidable (o.Same o') :=
  match o, o' with
  | .succeeded v, .succeeded w => inferInstanceAs (Decidable (v.Same w))
  | .failed e, .failed e' => inferInstanceAs (Decidable (e = e'))
  | .succeeded _, .failed _ => .isFalse id
  | .failed _, .succeeded _ => .isFalse id

@[refl] theorem OperationOutcome.Same.refl (o : OperationOutcome) : o.Same o := by
  cases o <;> rfl

theorem OperationOutcome.Same.trans {o₁ : OperationOutcome} (h₁ : o₁.Same o₂) (h₂ : o₂.Same o₃) :
    o₁.Same o₃ := by
  cases o₁ <;> cases o₂ <;> cases o₃ <;> first | exact Eq.trans h₁ h₂ | exact h₁.elim | exact h₂.elim

/-- Closing intent and separate outcomes. -/
structure OperationFinalization where
  export_ : String
  business : OperationOutcome
  businessEffectCount : ℕ
  outcome : Option OperationOutcome
deriving DecidableEq, Countable

structure OperationSnapshot where
  finalization : Option OperationFinalization
  context : OperationContext
  hostEffects : List HostEffectRecord
  operationId : String
  phase : OperationPhase
  cancellationRequested : Bool
  effects : EffectState
  value : Option Json
  error : Option EmbeddedError
deriving DecidableEq, Countable

namespace OperationSnapshot

/-- The terminal columns agree with the result of both stages: a business failure is primary, a
closing failure turns a business success into a failure. -/
def projects (s : OperationSnapshot) : EmbeddedResult Json → Bool
  | .ok value => s.phase = .succeeded ∧ (s.value.any fun v => v.Same value) ∧ s.error.isNone
  | .error error =>
    s.phase = (if error.code = .cancelled then .cancelled else .failed) ∧ s.value.isNone ∧
      s.error = some error

def validateFinalization (s : OperationSnapshot) : EmbeddedResult Unit :=
  match s.finalization with
  | none => .ok ()
  | some finalization => do
    refuseIf (unnamed finalization.export_ ∨
        finalization.businessEffectCount > s.hostEffects.length ∨
        (¬ s.phase.isTerminal ∧ s.phase ≠ .cleaning) ∨
        (s.hostEffects.take finalization.businessEffectCount).any fun e => e.phase ≠ .completed)
      (.invalid "operation finalization evidence is inconsistent")
    refuseIf (finalization.outcome.isSome ∧ s.hostEffects.any fun e => e.phase ≠ .completed)
      (.invalid "closing outcome precedes actual host completion")
    if ¬ s.phase.isTerminal then
      refuseIf (s.value.isSome ∨ s.error.isSome)
        (.invalid "nonterminal finalization cannot carry a terminal result")
    else
      let closing ← okOr finalization.outcome
        (.invalid "terminal finalization has no closing outcome")
      refuseIf (¬ s.projects (finalization.business.result.bind fun value =>
          closing.result.map fun _ => value))
        (.invalid "terminal projection contradicts retained stage outcomes")

def FinalizationKept (original next : OperationFinalization) : Prop :=
  original.export_ = next.export_ ∧ original.business.Same next.business ∧
  original.businessEffectCount = next.businessEffectCount ∧
  ∀ outcome ∈ original.outcome, ∃ o ∈ next.outcome, o.Same outcome

instance {f f' : OperationFinalization} : Decidable (FinalizationKept f f') := by
  unfold FinalizationKept
  infer_instance

def validateFinalizationSuccessor (s previous : OperationSnapshot) : EmbeddedResult Unit :=
  match previous.finalization with
  | none => .ok ()
  | some original => do
    let next ← okOr s.finalization (.invalid "operation finalization evidence cannot be removed")
    refuseIf (¬ FinalizationKept original next)
      (.invalid "operation finalization evidence is immutable")

def legalAdvance : OperationPhase → OperationPhase → Bool
  | .queued, .initializing | .queued, .running | .queued, .cleaning => true
  | .initializing, .running | .initializing, .waitingForHost | .initializing, .cleaning => true
  | .running, .waitingForHost | .running, .cleaning => true
  | .waitingForHost, .running | .waitingForHost, .initializing
  | .waitingForHost, .cleaning => true
  | _, _ => false

def advanceSnapshot (s : OperationSnapshot) (phase : OperationPhase) :
    EmbeddedResult OperationSnapshot := do
  refuseIf (¬ legalAdvance s.phase phase) (.busy "operation lifecycle transition is invalid")
  return { s with
    phase
    effects := if phase = .initializing ∨ phase = .running ∨ phase = .waitingForHost then .unknown
      else s.effects }

end OperationSnapshot

end LuaSkills.Embedded
