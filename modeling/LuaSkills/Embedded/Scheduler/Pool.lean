import LuaSkills.Data.Json
import LuaSkills.Embedded.Governor.State

/-!
# Physical pools

What the scheduler owns of a virtual machine is a lease: a reservation of the governor, then a module
that was built on it, then a receipt for its destruction. `EmbeddedPoolManager` keeps the governor, the
lifecycle of every pool's registration and the machines that are being retired. The idle cache of a
pool is not modelled: the scheduler's leases are pinned or belong to single-call pools, and neither
kind returns to it.

A call that can unwind has an `Option` for a result.
-/

namespace LuaSkills.Embedded

/-- A returned error or value of a call that did not unwind. -/
def Checked.observe {α : Type} : Checked α → Option (EmbeddedResult α)
  | .ok a => some (.ok a)
  | .error (.err e) => some (.error e)
  | .error (.panic _) => none

end LuaSkills.Embedded

namespace LuaSkills.Embedded.Scheduler

structure ModuleFinalizer where
  exportName : String
  arguments : Json
  timeoutMs : ℕ

structure ModulePool where
  group : String
  policy : PluginPoolConfig
  finalizer : Option ModuleFinalizer

/-- What a lease still owns: a reservation without a machine, a machine, the receipt of a machine it
gave up, or nothing. -/
inductive LeaseStage where
  | pending | resident | retired | released
deriving DecidableEq

/-- Exclusive invocation or session ownership. -/
structure ModuleLease where
  pool : ModulePool
  vm : ℕ
  instanceId : String
  pinned : Bool
  stage : LeaseStage
  ready : Bool
  uses : ℕ
  /-- `can_finalize` of the module: it captured exports and has not been closed. -/
  finalizable : Bool

/-- What happened to a lease that was finished. -/
inductive ModuleRelease where
  | noInstance
  /-- The receipt of the machine `vm`. -/
  | retiring (vm : ℕ)

namespace ModuleLease

def closed : EmbeddedError := ⟨.closed, "module pool or lease is closed"⟩

/-- The closing declaration of an eligible initialized module. -/
def finalizationPlan (l : ModuleLease) : Option ModuleFinalizer :=
  if l.stage = .resident ∧ l.finalizable then l.pool.finalizer else none

def canRetainSession (l : ModuleLease) : Bool :=
  l.ready && l.stage = .resident && l.pool.policy.maxUses.all (l.uses < ·)

end ModuleLease

/-- The lifecycle of one registration, with the admission flag of its pool. -/
structure PoolRegistration where
  closed : Bool
  closing : Bool
  released : Bool

/-- The resources of one runtime: leases in retirement move from `retirement` to `destroyed` and their
receipts to `completed`. -/
structure EmbeddedPoolManager where
  governor : PoolGovernor
  nextInstance : ℕ
  registrations : AssocMap String PoolRegistration
  retirement : List ModuleLease
  destroyed : List ℕ
  completed : List ℕ

namespace EmbeddedPoolManager
variable (m : EmbeddedPoolManager)

def new (config : ParentConfig) : EmbeddedPoolManager := ⟨.new config, 1, ∅, [], [], []⟩

def config : ParentConfig := m.governor.config

/-! ## Registration -/

/-- `release_if_drained`: a closing registration leaves the governor once nothing is resident. -/
def releaseIfDrained (group : String) : EmbeddedPoolManager :=
  match m.registrations.lookup group with
  | some r =>
    if r.closing ∧ ¬ r.released then
      match m.governor.unregisterGroup group with
      | .ok governor =>
        { m with
          governor
          registrations := m.registrations.insert group { r with released := true } }
      | .error _ => m
    else m
  | none => m

def closePool (group : String) : EmbeddedPoolManager :=
  match m.registrations.lookup group with
  | some r =>
    { m with registrations := m.registrations.insert group { r with closed := true, closing := true } }.releaseIfDrained
      group
  | none => m

/-- `create_pool_with_prepared_placement`: registers the group, in a capacity or on its own. -/
def createPool (pool : ModulePool) (capacityId : Option String) :
    Option (EmbeddedPoolManager × EmbeddedResult Unit) := do
  match ← (m.governor.registerGroupInternal pool.group pool.policy capacityId).observe with
  | .error e => return (m, .error e)
  | .ok governor =>
    return ({ m with
      governor
      registrations := m.registrations.insert pool.group ⟨false, false, false⟩ }, .ok ())

def released (group : String) : Bool := (m.registrations.lookup group).any (·.released)

/-- `usage().resident` of a pool. -/
def resident (group : String) : ℕ :=
  if m.released group then 0 else (m.governor.state.groupUsage group).resident

/-- `accounting`: the commitment of a pool whose registration was not released. -/
def guarantee (pool : ModulePool) : ℕ :=
  if m.released pool.group then 0 else max (m.resident pool.group) pool.policy.minResidentVms

/-! ## Leases -/

def planCapacity : EmbeddedError := .capacity "plugin resident capacity is occupied or reserved"

/-- `prepare_with_budget`; `check` is what the caller's control answers. -/
def prepareWithBudget (pool : ModulePool) (check : EmbeddedResult Unit) (pinned allowNew : Bool) :
    Option (EmbeddedPoolManager × EmbeddedResult ModuleLease) := do
  if let .error e := check then return (m, .error e)
  if (m.registrations.lookup pool.group).all (·.closed) then return (m, .error ModuleLease.closed)
  if ¬ allowNew then return (m, .error planCapacity)
  let some next := checkedAdd m.nextInstance 1
    | return (m, .error (.internal "pool instance identity exhausted"))
  let m' := { m with nextInstance := next }
  match ← (m'.governor.reserve pool.group).observe with
  | .error e => return (m', .error e)
  | .ok (governor, r) =>
    return ({ m' with governor },
      .ok ⟨pool, r.id, "embedded-vm:" ++ m.nextInstance.repr, pinned, .pending, false, 0, false⟩)

def dropReservation (l : ModuleLease) : EmbeddedPoolManager :=
  { m with governor := m.governor.dropReservation ⟨l.vm⟩ }

/-- `enqueue` of the retirement service. A refused transition is only logged. -/
def enqueue (l : ModuleLease) : EmbeddedPoolManager :=
  let governor := match m.governor.markRetiring ⟨l.vm⟩ with
    | .ok governor => governor
    | .error _ => m.governor
  { m with governor, retirement := m.retirement ++ [l] }

def closeLease (l : ModuleLease) : EmbeddedPoolManager × ModuleLease :=
  match l.stage with
  | .pending => (m.dropReservation l, { l with ready := false, stage := .released })
  | .resident => (m.enqueue l, { l with ready := false, stage := .retired })
  | .retired | .released => (m, { l with ready := false })

def finish (l : ModuleLease) : EmbeddedPoolManager × ModuleRelease :=
  match l.stage with
  | .pending => ((m.dropReservation l).releaseIfDrained l.pool.group, .noInstance)
  | .resident => ((m.enqueue l).releaseIfDrained l.pool.group, .retiring l.vm)
  | .retired => (m.releaseIfDrained l.pool.group, .retiring l.vm)
  | .released => (m.releaseIfDrained l.pool.group, .noInstance)

/-- The retirement worker destroys the machine `vm` and drops its reservation. -/
def destroy (vm : ℕ) : EmbeddedPoolManager :=
  match m.retirement.find? (·.vm = vm) with
  | some l =>
    { m.dropReservation l with
      retirement := m.retirement.eraseP (·.vm = vm)
      destroyed := vm :: m.destroyed }.releaseIfDrained l.pool.group
  | none => m

def publishRetired (vm : ℕ) : EmbeddedPoolManager :=
  if vm ∈ m.destroyed then
    { m with destroyed := m.destroyed.erase vm, completed := vm :: m.completed }
  else m

/-- A step of the retirement worker, which holds no lock of the scheduler. -/
inductive RetirementStep where
  | destroy (vm : ℕ)
  | publish (vm : ℕ)

def retire : RetirementStep → EmbeddedPoolManager
  | .destroy vm => m.destroy vm
  | .publish vm => m.publishRetired vm

/-- The progress of the retirement worker while a section runs. -/
def during (steps : List RetirementStep) : EmbeddedPoolManager := steps.foldl retire m

/-! ## Execution permits -/

/-- `begin_execution` of the leased machine, with the phase to restore. -/
def beginExecution (vm : ℕ) : Option (EmbeddedPoolManager × EmbeddedResult ExecutionPermit) := do
  match ← (m.governor.beginExecution ⟨vm⟩).observe with
  | .error e => return (m, .error e)
  | .ok (governor, permit) => return ({ m with governor }, .ok permit)

def dropPermit (permit : ExecutionPermit) : Option EmbeddedPoolManager := do
  match ← (m.governor.dropPermit permit).observe with
  | .error _ => return m
  | .ok governor => return { m with governor }

def markReady (vm : ℕ) : Option (EmbeddedPoolManager × EmbeddedResult Unit) := do
  match ← (m.governor.markReady ⟨vm⟩).observe with
  | .error e => return (m, .error e)
  | .ok governor => return ({ m with governor }, .ok ())

/-! ## Capacities -/

def registerCapacity (id : String) (config : VmCapacityConfig) :
    Option (EmbeddedPoolManager × EmbeddedResult Unit) := do
  match ← (m.governor.registerCapacity id config).observe with
  | .error e => return (m, .error e)
  | .ok governor => return ({ m with governor }, .ok ())

def unregisterCapacity (id : String) : Option (EmbeddedPoolManager × EmbeddedResult Unit) := do
  match ← (m.governor.unregisterCapacity id).observe with
  | .error e => return (m, .error e)
  | .ok governor => return ({ m with governor }, .ok ())

def reviseCapacity (id : String) (config : VmCapacityConfig) :
    Option (EmbeddedPoolManager × EmbeddedResult Unit) := do
  match ← (m.governor.reviseCapacity id config).observe with
  | .error e => return (m, .error e)
  | .ok governor => return ({ m with governor }, .ok ())

end EmbeddedPoolManager

end LuaSkills.Embedded.Scheduler
