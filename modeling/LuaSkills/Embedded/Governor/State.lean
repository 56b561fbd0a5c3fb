import LuaSkills.Data.AssocMap
import LuaSkills.Embedded.Config

/-!
# The pool governor

The resource authority shared by all plugin runtimes of a process: group and capacity registration,
resident reservations and execution permits. One metadata lock makes every call atomic, so a call is
a function from the locked state; a call that returns an error has written nothing, and a call that
unwinds leaves the lock poisoned.

`GovernorWorld` adds the tokens the governor handed out. A reservation or a permit is a value owned
by one client, a permit borrows its reservation exclusively, and both act on the governor again when
they are dropped, so a call is only possible while its client owns the token it names
(`GovernorWorld.legal`).
-/

namespace LuaSkills.Embedded

inductive VmAllocationState where
  | creating | idle | running | retiring
deriving DecidableEq

/-- Counters of one governor, group or capacity. -/
structure PoolUsage where
  resident : ℕ
  creating : ℕ
  idle : ℕ
  running : ℕ
  retiring : ℕ
deriving DecidableEq

structure Allocation where
  group : String
  phase : VmAllocationState
deriving DecidableEq

/-- The metadata behind the governor's lock. -/
structure GovernorState where
  groups : AssocMap String PluginPoolConfig
  capacities : AssocMap String VmCapacityConfig
  memberships : AssocMap String String
  allocations : AssocMap ℕ Allocation
  sequence : ℕ

def PoolUsage.empty : PoolUsage := ⟨0, 0, 0, 0, 0⟩

/-- One turn of the counting loop. -/
def PoolUsage.count (usage : PoolUsage) (allocation : Allocation) : PoolUsage :=
  let usage := { usage with resident := usage.resident + 1 }
  match allocation.phase with
  | .creating => { usage with creating := usage.creating + 1 }
  | .idle => { usage with idle := usage.idle + 1 }
  | .running => { usage with running := usage.running + 1 }
  | .retiring => { usage with retiring := usage.retiring + 1 }

def countAllocations (allocations : List Allocation) : PoolUsage :=
  allocations.foldl PoolUsage.count .empty

namespace GovernorState

def empty : GovernorState := ⟨∅, ∅, ∅, ∅, 0⟩

def groupUsage (s : GovernorState) (group : String) : PoolUsage :=
  countAllocations (s.allocations.values.filter fun a => a.group = group)

def capacityUsage (s : GovernorState) (id : String) : PoolUsage :=
  countAllocations (s.allocations.values.filter fun a => s.memberships.lookup a.group = some id)

/-- One step of the checked running total of `commitment`. -/
def addCharge (committed charge : ℕ) : EmbeddedResult ℕ :=
  okOr (checkedAdd committed charge) (.invalid "resident reservation overflow")

/-- The parent slots committed by all owners; a requesting group may consume its own owner's unused
guarantee. -/
def commitment (s : GovernorState) (requestingGroup : Option String) : EmbeddedResult ℕ := do
  let requestingCapacity := requestingGroup.bind fun group => s.memberships.lookup group
  let committed ← s.groups.entries.foldlM (fun committed entry =>
    if entry.1 ∈ s.memberships then
      pure committed
    else
      let resident := (s.groupUsage entry.1).resident
      addCharge committed
        (if requestingGroup = some entry.1 then resident
          else max resident entry.2.minResidentVms)) 0
  s.capacities.entries.foldlM (fun committed entry =>
    let resident := (s.capacityUsage entry.1).resident
    addCharge committed
      (if requestingCapacity = some entry.1 then resident
        else max resident entry.2.minResidentVms)) committed

end GovernorState

/-- The governor: immutable parent budgets and the locked metadata. -/
structure PoolGovernor where
  config : ParentConfig
  state : GovernorState
  poisoned : Bool

/-- Resident capacity token. -/
structure VmReservation where
  id : ℕ
deriving DecidableEq

/-- Running permit of the reservation `id`, with the phase to restore. -/
structure ExecutionPermit where
  id : ℕ
  previous : VmAllocationState
deriving DecidableEq

namespace PoolGovernor
open EmbeddedError (capacity notFound busy internal)

def new (config : ParentConfig) : PoolGovernor := ⟨config, .empty, false⟩

def lock (g : PoolGovernor) : EmbeddedResult GovernorState :=
  if g.poisoned then .error (internal "pool governor lock is poisoned") else .ok g.state

/-! ## Registration -/

def registerGroupInternal (g : PoolGovernor) (group : String) (policy : PluginPoolConfig)
    (capacityId : Option String) : Checked PoolGovernor := do
  refuseIf (trimIsEmpty group) (EmbeddedError.invalid "execution group must be nonempty")
  (policy.validate g.config.toEmbeddedRuntimeConfig).lift
  let state ← g.lock.lift
  refuseIf (group ∈ state.groups) (busy "execution group is already registered")
  refuseIf (state.groups.size ≥ g.config.maxRegisteredPools)
    (capacity "registered pool limit reached")
  match capacityId with
  | some id =>
    let owner ← okOr (state.capacities.lookup id) (notFound "capacity identity does not exist")
    refuseIf (policy.kind ≠ owner.kind ∨ policy.minResidentVms ≠ 0 ∨
        policy.maxResidentVms > owner.maxResidentVms ∨
        policy.maxRunningCalls > owner.maxRunningCalls)
      (EmbeddedError.invalid "module policy conflicts with its capacity owner")
    return { g with state := { state with
      groups := state.groups.insert group policy
      memberships := state.memberships.insert group id } }
  | none =>
    let committed ← (state.commitment none).lift
    refuseIf (policy.minResidentVms > g.config.maxResidentVms - committed)
      (capacity "dedicated reservations exceed available parent capacity")
    return { g with state := { state with groups := state.groups.insert group policy } }

def registerGroup (g : PoolGovernor) (group : String) (policy : PluginPoolConfig) :
    Checked PoolGovernor :=
  g.registerGroupInternal group policy none

def registerGroupInCapacity (g : PoolGovernor) (group : String) (policy : PluginPoolConfig)
    (capacityId : String) : Checked PoolGovernor :=
  g.registerGroupInternal group policy (some capacityId)

def unregisterGroup (g : PoolGovernor) (group : String) : Checked PoolGovernor := do
  let state ← g.lock.lift
  refuseIf (group ∉ state.groups) (notFound "execution group does not exist")
  refuseIf ((state.groupUsage group).resident ≠ 0)
    (busy "execution group still owns resident allocations")
  return { g with state := { state with
    groups := state.groups.erase group
    memberships := state.memberships.erase group } }

def registerCapacity (g : PoolGovernor) (id : String) (config : VmCapacityConfig) :
    Checked PoolGovernor := do
  refuseIf (trimIsEmpty id) (EmbeddedError.invalid "capacity identity must be nonempty")
  (config.validate g.config.toEmbeddedRuntimeConfig).lift
  let state ← g.lock.lift
  refuseIf (id ∈ state.capacities) (busy "capacity identity is already registered")
  refuseIf (state.capacities.size ≥ g.config.maxRegisteredPools)
    (capacity "registered capacity limit reached")
  let committed ← (state.commitment none).lift
  refuseIf (config.minResidentVms > g.config.maxResidentVms - committed)
    (capacity "dedicated reservations exceed available parent capacity")
  return { g with state := { state with capacities := state.capacities.insert id config } }

def unregisterCapacity (g : PoolGovernor) (id : String) : Checked PoolGovernor := do
  let state ← g.lock.lift
  refuseIf (id ∉ state.capacities) (notFound "capacity identity does not exist")
  refuseIf (id ∈ state.memberships.values) (busy "capacity still owns registered module groups")
  return { g with state := { state with capacities := state.capacities.erase id } }

/-- Replaces the limits of `id` after checking the complete parent commitment. -/
def reviseCapacity (g : PoolGovernor) (id : String) (config : VmCapacityConfig) :
    Checked PoolGovernor := do
  (config.validate g.config.toEmbeddedRuntimeConfig).lift
  let state ← g.lock.lift
  let previous ← okOr (state.capacities.lookup id) (notFound "capacity identity does not exist")
  let resident := (state.capacityUsage id).resident
  let total ← (state.commitment none).lift
  let committed ← okOr
    ((checkedSub total (max resident previous.minResidentVms)).bind fun other =>
      checkedAdd other (max resident config.minResidentVms))
    (EmbeddedError.invalid "resident reservation overflow")
  refuseIf (committed > g.config.maxResidentVms)
    (capacity "revised reservations exceed available parent capacity")
  return { g with state := { state with capacities := state.capacities.insert id config } }

/-! ## Reservations and permits -/

/-- The capacity part of `reserve`: a member's capacity has a resident slot left. -/
def checkCapacityResident (state : GovernorState) (group : String) : Checked Unit :=
  match state.memberships.lookup group with
  | some id => do
    let policy ← expect (state.capacities.lookup id) "capacity remains while members exist"
    refuseIf ((state.capacityUsage id).resident ≥ policy.maxResidentVms)
      (capacity "capacity group resident limit reached")
  | none => pure ()

/-- The capacity part of `beginExecution`: a member's capacity has an execution permit left. -/
def checkCapacityRunning (state : GovernorState) (group : String) : Checked Unit :=
  match state.memberships.lookup group with
  | some id => do
    let capacityPolicy ← expect (state.capacities.lookup id) "capacity remains while members exist"
    refuseIf ((state.capacityUsage id).running ≥ capacityPolicy.maxRunningCalls)
      (capacity "capacity group execution limit reached")
  | none => pure ()

/-- Reserves one creating VM for `group`, charging every level at once. -/
def reserve (g : PoolGovernor) (group : String) : Checked (PoolGovernor × VmReservation) := do
  let state ← g.lock.lift
  let policy ← okOr (state.groups.lookup group) (notFound "execution group does not exist")
  refuseIf ((state.groupUsage group).resident ≥ policy.maxResidentVms)
    (capacity "execution group resident limit reached")
  checkCapacityResident state group
  let committed ← (state.commitment (some group)).lift
  refuseIf (committed ≥ g.config.maxResidentVms)
    (capacity "parent resident capacity is occupied or reserved")
  let id ← okOr (checkedAdd state.sequence 1) (internal "allocation identity exhausted")
  return ({ g with state := { state with
    sequence := id
    allocations := state.allocations.insert id ⟨group, .creating⟩ } }, ⟨id⟩)

/-- The exact `expected` to `next` move of the owned allocation. -/
def transition (g : PoolGovernor) (r : VmReservation) (expected next : VmAllocationState) :
    Checked PoolGovernor := do
  let state ← g.lock.lift
  let allocation ← okOr (state.allocations.lookup r.id) (notFound "VM reservation no longer exists")
  refuseIf (allocation.phase ≠ expected) (busy "VM lifecycle transition is invalid")
  return { g with state := { state with
    allocations := state.allocations.adjust r.id ({ · with phase := next }) } }

def markReady (g : PoolGovernor) (r : VmReservation) : Checked PoolGovernor :=
  g.transition r .creating .idle

/-- Begins execution, charging group, capacity and parent permits together. -/
def beginExecution (g : PoolGovernor) (r : VmReservation) :
    Checked (PoolGovernor × ExecutionPermit) := do
  let state ← g.lock.lift
  let allocation ← okOr (state.allocations.lookup r.id) (notFound "VM reservation no longer exists")
  refuseIf (¬ (allocation.phase = .creating ∨ allocation.phase = .idle))
    (busy "VM is not available for execution")
  let policy ← okOr (state.groups.lookup allocation.group)
    (notFound "execution group does not exist")
  refuseIf ((state.groupUsage allocation.group).running ≥ policy.maxRunningCalls ∨
      (countAllocations state.allocations.values).running ≥ g.config.maxRunningCalls)
    (capacity "execution capacity is occupied")
  checkCapacityRunning state allocation.group
  return ({ g with state := { state with
    allocations := state.allocations.adjust r.id ({ · with phase := .running }) } },
    ⟨r.id, allocation.phase⟩)

/-- Keeps the capacity charged while owned resources are being retired. -/
def markRetiring (g : PoolGovernor) (r : VmReservation) : Checked PoolGovernor := do
  let state ← g.lock.lift
  let allocation ← okOr (state.allocations.lookup r.id) (notFound "VM reservation no longer exists")
  refuseIf (allocation.phase = .running) (busy "VM is still running")
  return { g with state := { state with
    allocations := state.allocations.adjust r.id ({ · with phase := .retiring }) } }

/-- `Drop for VmReservation`: works through a poisoned lock and cannot fail. -/
def dropReservation (g : PoolGovernor) (r : VmReservation) : PoolGovernor :=
  { g with state := { g.state with allocations := g.state.allocations.erase r.id } }

/-- `Drop for ExecutionPermit`: restores the phase from before the execution. -/
def dropPermit (g : PoolGovernor) (p : ExecutionPermit) : Checked PoolGovernor := do
  let _ ← expect (g.state.allocations.lookup p.id)
    "execution permit exclusively borrows its live reservation"
  return { g with state := { g.state with
    allocations := g.state.allocations.adjust p.id ({ · with phase := p.previous }) } }

end PoolGovernor

/-! ## Clients -/

/-- The governor together with the tokens its clients own. -/
structure GovernorWorld where
  governor : PoolGovernor
  reservations : List ℕ
  permits : AssocMap ℕ VmAllocationState

/-- One call into the governor, the drop of a token included. -/
inductive GovernorCall where
  | registerCapacity (id : String) (config : VmCapacityConfig)
  | unregisterCapacity (id : String)
  | reviseCapacity (id : String) (config : VmCapacityConfig)
  | registerGroup (group : String) (policy : PluginPoolConfig)
  | registerGroupInCapacity (group : String) (policy : PluginPoolConfig) (capacityId : String)
  | unregisterGroup (group : String)
  | reserve (group : String)
  | markReady (id : ℕ)
  | beginExecution (id : ℕ)
  | markRetiring (id : ℕ)
  | dropReservation (id : ℕ)
  | dropPermit (id : ℕ)

namespace GovernorWorld

def new (config : ParentConfig) : GovernorWorld := ⟨.new config, [], ∅⟩

/-- The client owns the token it uses, and no permit borrows a reservation it uses. -/
def legal (w : GovernorWorld) : GovernorCall → Bool
  | .markReady id | .beginExecution id | .markRetiring id | .dropReservation id =>
    id ∈ w.reservations && id ∉ w.permits
  | .dropPermit id => id ∈ w.permits
  | _ => true

/-- The world after a call: an error changes nothing, a panic poisons the lock. -/
def settle {α : Type} (w : GovernorWorld) (result : Checked α) (k : α → GovernorWorld) :
    GovernorWorld :=
  match result with
  | .ok a => k a
  | .error (.err _) => w
  | .error (.panic _) => { w with governor := { w.governor with poisoned := true } }

/-- The effect of one call that its client is able to make. -/
def perform (w : GovernorWorld) : GovernorCall → GovernorWorld
  | .registerCapacity id config =>
    w.settle (w.governor.registerCapacity id config) fun g => { w with governor := g }
  | .unregisterCapacity id =>
    w.settle (w.governor.unregisterCapacity id) fun g => { w with governor := g }
  | .reviseCapacity id config =>
    w.settle (w.governor.reviseCapacity id config) fun g => { w with governor := g }
  | .registerGroup group policy =>
    w.settle (w.governor.registerGroup group policy) fun g => { w with governor := g }
  | .registerGroupInCapacity group policy id =>
    w.settle (w.governor.registerGroupInCapacity group policy id) fun g => { w with governor := g }
  | .unregisterGroup group =>
    w.settle (w.governor.unregisterGroup group) fun g => { w with governor := g }
  | .reserve group =>
    w.settle (w.governor.reserve group) fun (g, r) =>
      { w with governor := g, reservations := r.id :: w.reservations }
  | .markReady id => w.settle (w.governor.markReady ⟨id⟩) fun g => { w with governor := g }
  | .beginExecution id =>
    w.settle (w.governor.beginExecution ⟨id⟩) fun (g, p) =>
      { w with governor := g, permits := w.permits.insert p.id p.previous }
  | .markRetiring id => w.settle (w.governor.markRetiring ⟨id⟩) fun g => { w with governor := g }
  | .dropReservation id =>
    { w with
      governor := w.governor.dropReservation ⟨id⟩
      reservations := w.reservations.filter (· ≠ id) }
  | .dropPermit id =>
    match w.permits.lookup id with
    | some previous =>
      w.settle (w.governor.dropPermit ⟨id, previous⟩) fun g =>
        { w with governor := g, permits := w.permits.erase id }
    | none => w

/-- One call; what ownership rules out does not happen. -/
def step (w : GovernorWorld) (call : GovernorCall) : GovernorWorld :=
  if w.legal call then w.perform call else w

/-- The world after a sequence of calls, those that return errors included. -/
def run (config : ParentConfig) (calls : List GovernorCall) : GovernorWorld :=
  calls.foldl step (new config)

end GovernorWorld

end LuaSkills.Embedded
