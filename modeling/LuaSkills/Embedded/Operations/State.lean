import LuaSkills.Data.AssocMap
import LuaSkills.Embedded.Identity
import LuaSkills.Embedded.Operation.Effects

/-!
# The operation registry

Registries retain operations under a limit that records and reserved capacity share. An identity is
allocated when an operation is admitted or reserved; a reserved one becomes visible later, when it is
converted, so the order of publication is not the order of identities. Several registries may exist, each
named by a number, and a control may be offered to any of them. What an operation's owner publishes is
left to it (`evolve`); contexts and clocks answer as they like. The lists `issued` and `published` of a
registry record every identity it handed out and every publication, oldest first.
-/

namespace LuaSkills.Embedded

open Function

/-- Evidence mode of a control, frozen at registration or at its first untracked use. -/
inductive ControlEvidence where
  | fresh
  | untracked
  | registered (operationId : String)
deriving DecidableEq

/-- A retained operation, as far as its registry reads it. -/
structure RetainedOperation where
  publicationSequence : ℕ
  id : String
  ledger : LedgerState
  control : ℕ
  snapshot : OperationSnapshot

/-- A slot owned by one registry. -/
structure OperationReservation where
  id : String
  context : OperationContext
  state : ℕ
  active : Bool

structure OperationRegistryState where
  publicationSequence : ℕ
  reserved : ℕ
  sequence : ℕ
  records : AssocMap String RetainedOperation
  issued : List String
  published : List (ℕ × String)

/-- The fixed part of a registry; `contextSize` is the size serde gives a context. -/
structure OperationRegistry where
  runtimeId : String
  maxOperations : ℕ
  maxEffectBytes : ℕ
  contextSize : OperationContext → ℕ

structure OperationsWorld where
  states : ℕ → OperationRegistryState
  reservations : AssocMap ℕ OperationReservation
  nextReservation : ℕ
  controls : ℕ → ControlEvidence

/-- What admission computes before it binds the control. -/
structure OperationAdmission where
  sequence : ℕ
  id : String
  context : OperationContext
  contextBytes : ℕ
  publicationSequence : ℕ

namespace OperationRegistryState

def new : OperationRegistryState := ⟨0, 0, 0, ∅, [], []⟩

end OperationRegistryState

namespace OperationsWorld

def new : OperationsWorld := ⟨fun _ => .new, ∅, 0, fun _ => .fresh⟩

def setState (w : OperationsWorld) (g : ℕ) (s : OperationRegistryState) : OperationsWorld :=
  { w with states := update w.states g s }

end OperationsWorld

namespace OperationRegistry

def retentionCapacity : EmbeddedError := ⟨.capacityExceeded, "operation retention capacity reached"⟩

def identityExhausted : EmbeddedError := .internal "operation identity exhausted"

section
variable (R : OperationRegistry) (g : ℕ)

def prepareOrdinary (s : OperationRegistryState) (makeContext : String → EmbeddedResult OperationContext) :
    EmbeddedResult (ℕ × String × OperationContext) := do
  refuseIf (s.records.size ≥ R.maxOperations - s.reserved) retentionCapacity
  let sequence ← okOr (checkedAdd s.sequence 1) identityExhausted
  let id := IdentityKind.operation.render R.runtimeId sequence
  let context ← makeContext id
  return (sequence, id, context)

/-- The checks of reserved admission: the reservation is this registry's and unconsumed. -/
def prepareReserved (s : OperationRegistryState) (owned : OperationReservation) :
    EmbeddedResult (ℕ × String × OperationContext) := do
  refuseIf (¬ owned.active ∨ owned.state ≠ g)
    (EmbeddedError.invalid "operation reservation belongs to another registry or was consumed")
  return (s.sequence, owned.id, owned.context)

/-- The bytes that an operation's context takes of its effect budget. -/
def contextBytes : OperationContext → EmbeddedResult ℕ
  | .unbound => .ok 0
  | .module context => jsonSize (R.contextSize (.module context)) R.maxEffectBytes

/-- Everything that `admit_with_reservation` checks before it binds the control. -/
def prepareAdmission (s : OperationRegistryState) (reservation : Option OperationReservation)
    (makeContext : String → EmbeddedResult OperationContext) : EmbeddedResult OperationAdmission := do
  let (sequence, id, context) ← match reservation with
    | some owned => prepareReserved g s owned
    | none => R.prepareOrdinary s makeContext
  context.validate R.runtimeId id
  let contextBytes ← R.contextBytes context
  let publicationSequence ← okOr (checkedAdd s.publicationSequence 1)
    (.internal "operation publication sequence exhausted")
  return ⟨sequence, id, context, contextBytes, publicationSequence⟩

/-- The operation as it is admitted. -/
def admitted (p : OperationAdmission) (control : ℕ) : RetainedOperation where
  publicationSequence := p.publicationSequence
  id := p.id
  ledger := EffectLedger.new p.contextBytes
  control := control
  snapshot := ⟨none, p.context, [], p.id, .queued, false, .notStarted, none, none⟩

def attachEffects (evidence : ControlEvidence) (id : String) : EmbeddedResult ControlEvidence := do
  refuseIf (evidence ≠ .fresh) (EmbeddedError.busy "operation control is already registered or used")
  return .registered id

/-- The registry after a publication; `fresh` says whether the identity was allocated now. -/
def publish (s : OperationRegistryState) (p : OperationAdmission) (control : ℕ) (fresh : Bool) :
    OperationRegistryState where
  publicationSequence := p.publicationSequence
  reserved := if fresh then s.reserved else s.reserved - 1
  sequence := p.sequence
  records := s.records.insert p.id (admitted p control)
  issued := if fresh then s.issued ++ [p.id] else s.issued
  published := s.published ++ [(p.publicationSequence, p.id)]

/-- The locked section of `admit_with_reservation`, with the reservation `k` or without one. -/
def admitWithReservation (w : OperationsWorld) (control : ℕ)
    (reservation : Option (ℕ × OperationReservation))
    (makeContext : String → EmbeddedResult OperationContext) :
    OperationsWorld × EmbeddedResult String :=
  let s := w.states g
  match R.prepareAdmission g s (reservation.map Prod.snd) makeContext with
  | .error e => (w, .error e)
  | .ok p =>
    match attachEffects (w.controls control) p.id with
    | .error e => (w, .error e)
    | .ok evidence =>
      let w := { w with controls := update w.controls control evidence }
      match reservation with
      | some (k, owned) =>
        ({ w.setState g (publish s p control false) with
          reservations := w.reservations.insert k { owned with active := false } }, .ok p.id)
      | none => (w.setState g (publish s p control true), .ok p.id)

/-- Ordinary admission; `checked` is what the control answers about its budget and cancellation. -/
def admitContext (w : OperationsWorld) (control : ℕ) (checked : EmbeddedResult Unit)
    (makeContext : String → EmbeddedResult OperationContext) :
    OperationsWorld × EmbeddedResult String :=
  match checked with
  | .error e => (w, .error e)
  | .ok () => R.admitWithReservation g w control none makeContext

/-- The checks of `reserve_context`. -/
def prepareReservation (s : OperationRegistryState)
    (makeContext : String → EmbeddedResult OperationContext) :
    EmbeddedResult (ℕ × String × OperationContext) := do
  let (sequence, id, context) ← R.prepareOrdinary s makeContext
  context.validate R.runtimeId id
  let _ ← jsonSize (R.contextSize context) R.maxEffectBytes
  return (sequence, id, context)

/-- The registry after an identity was reserved. -/
def allocate (s : OperationRegistryState) (sequence : ℕ) (id : String) : OperationRegistryState :=
  { s with sequence, reserved := s.reserved + 1, issued := s.issued ++ [id] }

def reserveContext (w : OperationsWorld) (makeContext : String → EmbeddedResult OperationContext) :
    OperationsWorld × EmbeddedResult String :=
  let s := w.states g
  match R.prepareReservation s makeContext with
  | .error e => (w, .error e)
  | .ok (sequence, id, context) =>
    ({ w.setState g (allocate s sequence id) with
      reservations := w.reservations.insert w.nextReservation ⟨id, context, g, true⟩
      nextReservation := w.nextReservation + 1 }, .ok id)

/-- `admit_reserved`; the factory it passes is never asked. -/
def admitReserved (w : OperationsWorld) (k : ℕ) (owned : OperationReservation) (control : ℕ) :
    OperationsWorld × EmbeddedResult String :=
  R.admitWithReservation g w control (some (k, owned)) fun _ =>
    .error (.invalid "reserved admission must use its captured context")

def dropReservation (w : OperationsWorld) (k : ℕ) (owned : OperationReservation) : OperationsWorld :=
  let w' := { w with reservations := w.reservations.erase k }
  if owned.active then
    let s := w.states owned.state
    w'.setState owned.state { s with reserved := s.reserved - 1 }
  else w'

def unknownRecord : EmbeddedError := .notFound "operation record is unknown or expired"

def checkForget (s : OperationRegistryState) (id : String) : EmbeddedResult Unit := do
  let operation ← okOr (s.records.lookup id) unknownRecord
  refuseIf (¬ operation.snapshot.phase.isTerminal)
    (.busy "operation has not finished execution and cleanup")

def forget (w : OperationsWorld) (id : String) : OperationsWorld × EmbeddedResult Unit :=
  let s := w.states g
  match checkForget s id with
  | .error e => (w, .error e)
  | .ok () => (w.setState g { s with records := s.records.erase id }, .ok ())

/-- The owner of a retained operation publishes; its context and its identity stay, and so does a
terminal snapshot. -/
def evolve (s : OperationRegistryState) (id : String) (snapshot : OperationSnapshot) :
    OperationRegistryState :=
  { s with
    records := s.records.adjust id fun operation =>
      if operation.snapshot.phase.isTerminal then operation
      else { operation with snapshot := { snapshot with
        context := operation.snapshot.context
        operationId := operation.id } } }

end

/-- One call on a registry, or a step of somebody who shares its operations or controls. -/
inductive Call where
  | admitContext (g control : ℕ) (checked : EmbeddedResult Unit)
    (makeContext : String → EmbeddedResult OperationContext)
  | reserveContext (g : ℕ) (makeContext : String → EmbeddedResult OperationContext)
  | admitReserved (g k control : ℕ)
  | dropReservation (k : ℕ)
  | forget (g : ℕ) (id : String)
  | evolve (g : ℕ) (id : String) (snapshot : OperationSnapshot)
  | useControl (control : ℕ)

/-- The call with what it returns; a call on a reservation that was dropped cannot be made. -/
def perform (R : ℕ → OperationRegistry) (w : OperationsWorld) : Call → OperationsWorld × EmbeddedResult Unit
  | .admitContext g control checked makeContext =>
    ((R g).admitContext g w control checked makeContext).map id fun x => x.map fun _ => ()
  | .reserveContext g makeContext => ((R g).reserveContext g w makeContext).map id fun x => x.map fun _ => ()
  | .admitReserved g k control =>
    match w.reservations.lookup k with
    | none => (w, .ok ())
    | some owned => ((R g).admitReserved g w k owned control).map id fun x => x.map fun _ => ()
  | .dropReservation k =>
    match w.reservations.lookup k with
    | none => (w, .ok ())
    | some owned => (dropReservation w k owned, .ok ())
  | .forget g id => forget g w id
  | .evolve g id snapshot => (w.setState g (evolve (w.states g) id snapshot), .ok ())
  | .useControl control =>
    (match w.controls control with
      | .fresh => { w with controls := update w.controls control .untracked }
      | _ => w, .ok ())

/-- The world after further calls. -/
def runFrom (R : ℕ → OperationRegistry) (w : OperationsWorld) (calls : List Call) : OperationsWorld :=
  calls.foldl (fun w call => (perform R w call).1) w

def run (R : ℕ → OperationRegistry) (calls : List Call) : OperationsWorld := runFrom R .new calls

def handsOut (R : ℕ → OperationRegistry) (g : ℕ) (w : OperationsWorld) : Call → Option String
  | .admitContext h control checked makeContext =>
    if h = g then ((R h).admitContext h w control checked makeContext).2.toOption else none
  | .reserveContext h makeContext =>
    if h = g then ((R h).reserveContext h w makeContext).2.toOption else none
  | _ => none

/-- The identities that further calls on the registry `g` return, oldest first. -/
def handedOut (R : ℕ → OperationRegistry) (g : ℕ) (w : OperationsWorld) : List Call → List String
  | [] => []
  | call :: calls => (handsOut R g w call).toList ++ handedOut R g (perform R w call).1 calls

end OperationRegistry

end LuaSkills.Embedded
