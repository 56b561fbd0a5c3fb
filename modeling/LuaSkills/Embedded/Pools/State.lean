import LuaSkills.Data.Custody
import LuaSkills.Embedded.Governor.Runs

/-!
# Module pools and their retirement

A pool reserves machines with the governor, lends them as leases and keeps the idle ones. A machine
that cannot be reused goes to one retirement worker, which closes it, destroys it and gives its
reservation back; a failed attempt puts it at the end of the queue again.

Pools, leases and machines live on heaps; a machine is named by its reservation. A call that takes
several locks one after the other leaves the rest of its sections in `threads`, and the worker's loop
is cut at its locks as well, so a run is any order of sections.
-/

namespace LuaSkills.Embedded.Pools

/-! ## Receipts -/

/-- Observable stages of one VM lifetime. -/
inductive ModuleRetirementPhase where
  | live | queued | running | retrying | completed
deriving DecidableEq

structure ModuleRetirementSnapshot where
  phase : ModuleRetirementPhase
  attempts : ℕ
  lastErrorCode : Option EmbeddedErrorCode

namespace ModuleRetirementSnapshot

def new : ModuleRetirementSnapshot := ⟨.live, 0, none⟩

/-- `publish`; the number of attempts saturates. -/
def publish (s : ModuleRetirementSnapshot) (phase : ModuleRetirementPhase)
    (error : Option EmbeddedErrorCode) : ModuleRetirementSnapshot where
  phase
  attempts := if phase = .running then min (s.attempts + 1) (wordBound - 1) else s.attempts
  lastErrorCode := error.or s.lastErrorCode

end ModuleRetirementSnapshot

/-! ## Pools and leases -/

structure ModulePool where
  group : String
  policy : PluginPoolConfig
  /-- Someone still has a handle of the pool. -/
  alive : Bool
  closed : Bool
  idle : List ℕ
  closing : Bool
  released : Bool

structure ResidentModule where
  pool : ℕ
  uses : ℕ
  /-- `is_reusable` of the module. -/
  reusable : Bool

/-- What a lease owns. A permit borrows the reservation for as long as it exists. -/
inductive Holding where
  | nothing
  | pending (vm : ℕ)
  | allocating (vm : ℕ) (permit : ExecutionPermit)
  | resident (vm : ℕ)
  | executing (vm : ℕ) (permit : ExecutionPermit)

structure ModuleLease where
  pool : ℕ
  pinned : Bool
  holding : Holding

/-! ## Sections -/

/-- A section of a call that is under way. -/
inductive PoolAction where
  /-- The three parts of `enqueue`. -/
  | mark (vm : ℕ)
  | queue (vm : ℕ)
  | push (vm : ℕ)
  | close (pool : ℕ)
  /-- The two parts of `request_retirement`. -/
  | setClosing (pool : ℕ)
  | releaseIfDrained (pool : ℕ)
  /-- The parts of `poll_closed` behind its first check. -/
  | readUsage
  | tryShutdown
  | join
deriving DecidableEq

def enqueue (vm : ℕ) : List PoolAction := [.mark vm, .queue vm, .push vm]

def requestRetirement (pool : ℕ) : List PoolAction := [.setClosing pool, .releaseIfDrained pool]

inductive RetirementWorker where
  | waiting
  | popped (vm : ℕ)
  | cleaning (vm : ℕ)
  /-- The cleanup succeeded and the machine is dropped, field by field. -/
  | destroying (vm : ℕ)
  | unreserving (vm pool : ℕ)
  | deregistering (vm pool : ℕ)
  | publishing (vm : ℕ)
  | settling
  | failing (vm : ℕ) (code : EmbeddedErrorCode)
  | requeueing (vm : ℕ)
  | exited
deriving DecidableEq

/-- The marker of a detached cleanup. -/
def RetirementWorker.running : RetirementWorker → Bool
  | .waiting | .exited => false
  | _ => true

inductive PoolEvent where
  | queued (vm : ℕ)
  | failed (vm : ℕ) (code : EmbeddedErrorCode)
  | completed (vm : ℕ)
  | released (pool : ℕ)
  /-- `poll_closed` returned true while the governor had so many residents. -/
  | reportedClosed (resident : ℕ)
deriving DecidableEq

structure PoolWorld where
  governor : PoolGovernor
  closing : Bool
  /-- The weak references of the manager. -/
  registered : List ℕ
  pools : AssocMap ℕ ModulePool
  nextPool : ℕ
  residents : AssocMap ℕ ResidentModule
  leases : AssocMap ℕ ModuleLease
  nextLease : ℕ
  receipts : AssocMap ℕ ModuleRetirementSnapshot
  pending : List ℕ
  stopping : Bool
  worker : RetirementWorker
  threads : List (List PoolAction)
  log : List PoolEvent

inductive PoolAct where
  | registerCapacity (id : String) (config : VmCapacityConfig)
  | unregisterCapacity (id : String)
  | reviseCapacity (id : String) (config : VmCapacityConfig)
  | createPool (group : String) (policy : PluginPoolConfig) (capacityId : Option String)
  | retireExpired (pool : ℕ) (elapsed : ℕ → Bool)
  | prepare (pool : ℕ) (pinned allowNew : Bool)
  | initializeLease (lease : ℕ)
  /-- The machine of a lease was built, or could not be. -/
  | allocated (lease : ℕ) (built : Bool)
  | beginExecution (lease : ℕ)
  | endExecution (lease : ℕ) (reusable used : Bool)
  | markReady (lease : ℕ)
  | closeLease (lease : ℕ)
  /-- `finish` of a lease, or its drop. -/
  | finish (lease : ℕ)
  | closePool (pool : ℕ)
  | dropPool (pool : ℕ)
  | dropRegistration (pool : ℕ)
  | requestClose
  | pollClosed
  /-- The next section of a call. -/
  | turn (thread : ℕ)
  /-- The next section of the worker, with what a cleanup returns. -/
  | work (cleaned : EmbeddedResult Unit)

namespace PoolWorld

def new (config : ParentConfig) : PoolWorld where
  governor := .new config
  closing := false
  registered := []
  pools := ∅
  nextPool := 0
  residents := ∅
  leases := ∅
  nextLease := 0
  receipts := ∅
  pending := []
  stopping := false
  worker := .waiting
  threads := []
  log := []

variable (w : PoolWorld)

/-- A call of the governor; an error is returned, an unwinding call unwinds. -/
def attempt {α : Type} (result : Checked α) (ok : α → PoolWorld) (refused : PoolWorld) :
    Checked PoolWorld :=
  match result with
  | .ok a => .ok (ok a)
  | .error (.err _) => .ok refused
  | .error (.panic message) => .error (.panic message)

def record (event : PoolEvent) : PoolWorld := { w with log := w.log ++ [event] }

def spawn (actions : List PoolAction) : PoolWorld := { w with threads := w.threads ++ [actions] }

def setPool (p : ℕ) (pool : ModulePool) : PoolWorld := { w with pools := w.pools.insert p pool }

def setLease (k : ℕ) (l : ModuleLease) (holding : Holding) : PoolWorld :=
  { w with leases := w.leases.insert k { l with holding } }

def openLease (p : ℕ) (pinned : Bool) (holding : Holding) : PoolWorld :=
  { w with
    leases := w.leases.insert w.nextLease ⟨p, pinned, holding⟩
    nextLease := w.nextLease + 1 }

def dropReservation (vm : ℕ) : PoolWorld :=
  { w with governor := w.governor.dropReservation ⟨vm⟩ }

def publish (vm : ℕ) (phase : ModuleRetirementPhase) (error : Option EmbeddedErrorCode) : PoolWorld :=
  { w with receipts := w.receipts.adjust vm (·.publish phase error) }

/-- Residents of the parent. -/
def resident : ℕ := (countAllocations w.governor.state.allocations.values).resident

/-! ## Registration -/

/-- The pools that the manager does not forget at the next registration. -/
def retained : List ℕ :=
  w.registered.filter fun p => (w.pools.lookup p).any fun pool => pool.alive && !pool.closed

/-- `create_pool_with_prepared_placement`. -/
def createPool (group : String) (policy : PluginPoolConfig) (capacityId : Option String) :
    Checked PoolWorld :=
  if w.closing then .ok w
  else attempt (w.governor.registerGroupInternal group policy capacityId)
    (fun governor => { w with
      governor
      pools := w.pools.insert w.nextPool ⟨group, policy, true, false, [], false, false⟩
      nextPool := w.nextPool + 1
      registered := w.retained ++ [w.nextPool] }) w

/-- `release_if_drained`: a closing registration leaves the governor once nothing is resident. -/
def releaseIfDrained (p : ℕ) : Checked PoolWorld :=
  match w.pools.lookup p with
  | none => .ok w
  | some pool =>
    if pool.closing ∧ ¬ pool.released then
      attempt (w.governor.unregisterGroup pool.group)
        (fun governor => ({ w with governor }.setPool p { pool with released := true }).record
          (.released p)) w
    else .ok w

/-! ## Leases -/

/-- The loop of `retire_expired` from the index before `n` down, with the idle and the expired machines. -/
def sweep (elapsed : ℕ → Bool) (removable : ℕ) : ℕ → List ℕ × List ℕ → List ℕ × List ℕ
  | 0, x => x
  | n + 1, (idle, expired) =>
    match idle[n]? with
    | some vm =>
      if expired.length < removable ∧ elapsed vm then
        sweep elapsed removable n (idle.swapRemove n, expired ++ [vm])
      else sweep elapsed removable n (idle, expired)
    | none => sweep elapsed removable n (idle, expired)

def retireExpired (p : ℕ) (elapsed : ℕ → Bool) : PoolWorld :=
  match w.pools.lookup p with
  | none => w
  | some pool =>
    if pool.alive ∧ pool.policy.idleTtlMs.isSome then
      let (idle, expired) := sweep elapsed (pool.idle.length - pool.policy.minResidentVms)
        pool.idle.length (pool.idle, [])
      (w.setPool p { pool with idle }).spawn (expired.flatMap enqueue)
    else w

/-- The locked section of `prepare_with_budget`. -/
def prepare (p : ℕ) (pinned allowNew : Bool) : Checked PoolWorld :=
  match w.pools.lookup p with
  | none => .ok w
  | some pool =>
    if ¬ pool.alive ∨ pool.closed then .ok w
    else match if pinned then none else pool.idle.getLast? with
      | some vm =>
        .ok ((w.setPool p { pool with idle := pool.idle.dropLast }).openLease p pinned (.resident vm))
      | none =>
        if allowNew then
          attempt (w.governor.reserve pool.group)
            (fun (governor, r) => { w with governor }.openLease p pinned (.pending r.id)) w
        else .ok w

/-- `initialize` up to the allocation: without a permit the reservation is gone. -/
def initializeLease (k : ℕ) : Checked PoolWorld :=
  match w.leases.lookup k with
  | some ⟨p, pinned, .pending vm⟩ =>
    let l : ModuleLease := ⟨p, pinned, .pending vm⟩
    attempt (w.governor.beginExecution ⟨vm⟩)
      (fun (governor, permit) => { w with governor }.setLease k l (.allocating vm permit))
      ((w.dropReservation vm).setLease k l .nothing)
  | _ => .ok w

/-- The allocation returned; its permit ends before its outcome is looked at. -/
def allocated (k : ℕ) (built : Bool) : Checked PoolWorld :=
  match w.leases.lookup k with
  | some ⟨p, pinned, .allocating vm permit⟩ =>
    let l : ModuleLease := ⟨p, pinned, .allocating vm permit⟩
    attempt (w.governor.dropPermit permit)
      (fun governor =>
        if built then
          { w with
            governor
            residents := w.residents.insert vm ⟨p, 0, true⟩
            receipts := w.receipts.insert vm .new }.setLease k l (.resident vm)
        else ({ w with governor }.dropReservation vm).setLease k l .nothing) w
  | _ => .ok w

def beginExecution (k : ℕ) : Checked PoolWorld :=
  match w.leases.lookup k with
  | some ⟨p, pinned, .resident vm⟩ =>
    attempt (w.governor.beginExecution ⟨vm⟩)
      (fun (governor, permit) =>
        { w with governor }.setLease k ⟨p, pinned, .resident vm⟩ (.executing vm permit)) w
  | _ => .ok w

def endExecution (k : ℕ) (reusable used : Bool) : Checked PoolWorld :=
  match w.leases.lookup k with
  | some ⟨p, pinned, .executing vm permit⟩ =>
    attempt (w.governor.dropPermit permit)
      (fun governor => { w with
        governor
        residents := w.residents.adjust vm fun r =>
          { r with uses := if used then r.uses + 1 else r.uses, reusable } }.setLease k
            ⟨p, pinned, .executing vm permit⟩ (.resident vm)) w
  | _ => .ok w

def markReady (k : ℕ) : Checked PoolWorld :=
  match w.leases.lookup k with
  | some ⟨_, _, .resident vm⟩ =>
    attempt (w.governor.markReady ⟨vm⟩) (fun governor => { w with governor }) w
  | _ => .ok w

def closeLease (k : ℕ) : PoolWorld :=
  match w.leases.lookup k with
  | some ⟨p, pinned, .pending vm⟩ =>
    (w.dropReservation vm).setLease k ⟨p, pinned, .pending vm⟩ .nothing
  | some ⟨p, pinned, .resident vm⟩ =>
    (w.setLease k ⟨p, pinned, .resident vm⟩ .nothing).spawn (enqueue vm)
  | _ => w

/-- Whether `release` returns a machine to its pool. -/
def returns (l : ModuleLease) (pool : ModulePool) (r : ResidentModule) : Bool :=
  !l.pinned && pool.policy.reuse = .reusable && r.reusable && pool.policy.maxUses.all (r.uses < ·) &&
    !pool.closed

def finish (k : ℕ) : PoolWorld :=
  match w.leases.lookup k with
  | some ⟨p, pinned, .resident vm⟩ =>
    match w.pools.lookup p, w.residents.lookup vm with
    | some pool, some r =>
      if returns ⟨p, pinned, .resident vm⟩ pool r then
        ({ w with leases := w.leases.erase k }.setPool p { pool with idle := pool.idle ++ [vm] }).spawn
          [.releaseIfDrained p]
      else { w with leases := w.leases.erase k }.spawn (enqueue vm ++ [PoolAction.releaseIfDrained p])
    | _, _ => w
  | some ⟨p, _, .pending vm⟩ =>
    { w.dropReservation vm with leases := w.leases.erase k }.spawn [.releaseIfDrained p]
  | some ⟨p, _, .nothing⟩ => { w with leases := w.leases.erase k }.spawn [.releaseIfDrained p]
  | _ => w

/-! ## Closing -/

/-- The pool gives its idle machines away. -/
def drain (p : ℕ) (pool : ModulePool) : List PoolAction :=
  pool.idle.flatMap enqueue ++ requestRetirement p

def closePool (p : ℕ) : PoolWorld :=
  if (w.pools.lookup p).any (·.alive) then w.spawn [.close p] else w

/-- `Drop for ModulePool`: every lease has a handle. -/
def dropPool (p : ℕ) : PoolWorld :=
  match w.pools.lookup p with
  | none => w
  | some pool =>
    if pool.alive ∧ w.leases.countBy (fun l => l.pool = p) = 0 then
      (w.setPool p { pool with alive := false, idle := [] }).spawn (drain p pool)
    else w

/-- `Drop for PoolRegistration`: every machine has a handle, and the pool. -/
def dropRegistration (p : ℕ) : PoolWorld :=
  match w.pools.lookup p with
  | none => w
  | some pool =>
    if ¬ pool.alive ∧ w.residents.countBy (fun r => r.pool = p) = 0 then
      w.spawn (requestRetirement p)
    else w

/-- `request_close` closes the pools one after the other. -/
def requestClose : PoolWorld :=
  let live := w.registered.filter fun p => (w.pools.lookup p).any (·.alive)
  { w with closing := true }.spawn (live.map .close)

def pollClosed : PoolWorld :=
  if w.closing then w.spawn [.readUsage, .tryShutdown, .join] else w

/-! ## Sections of a call -/

/-- One section, with what is left of the call. -/
def perform (rest : List PoolAction) : PoolAction → Checked (PoolWorld × List PoolAction)
  | .mark vm => do
    -- A refused transition is only logged.
    let w ← attempt (w.governor.markRetiring ⟨vm⟩) (fun governor => { w with governor }) w
    return (w, rest)
  | .queue vm => return (w.publish vm .queued none, rest)
  | .push vm => return ({ w with pending := w.pending ++ [vm] }.record (.queued vm), rest)
  | .close p =>
    match w.pools.lookup p with
    | none => return (w, rest)
    | some pool => return (w.setPool p { pool with closed := true, idle := [] }, drain p pool ++ rest)
  | .setClosing p =>
    match w.pools.lookup p with
    | none => return (w, rest)
    | some pool => return (w.setPool p { pool with closing := true }, rest)
  | .releaseIfDrained p => do
    let w ← w.releaseIfDrained p
    return (w, rest)
  | .readUsage => return (w, if w.resident ≠ 0 then [] else rest)
  | .tryShutdown =>
    if w.worker.running ∨ w.pending ≠ [] then return (w, [])
    else return ({ w with stopping := true }, rest)
  | .join =>
    if w.worker = .exited then return (w.record (.reportedClosed w.resident), rest)
    else return (w, [])

def turn (t : ℕ) : Checked PoolWorld :=
  match w.threads[t]? with
  | some (action :: rest) => do
    let (w, rest) ← w.perform rest action
    return { w with threads := w.threads.set t rest }
  | _ => .ok w

/-! ## The worker -/

/-- The next section of `run_retirement`. -/
def work (cleaned : EmbeddedResult Unit) : Checked PoolWorld :=
  match w.worker with
  | .waiting =>
    match w.pending with
    | vm :: pending => .ok { w with pending, worker := .popped vm }
    | [] => .ok (if w.stopping then { w with worker := .exited } else w)
  | .popped vm => .ok { w.publish vm .running none with worker := .cleaning vm }
  | .cleaning vm =>
    match cleaned with
    | .ok _ => .ok { w with worker := .destroying vm }
    | .error e => .ok { w with worker := .failing vm e.code }
  | .destroying vm =>
    match w.residents.lookup vm with
    | some r => .ok { w with residents := w.residents.erase vm, worker := .unreserving vm r.pool }
    | none => .ok w
  | .unreserving vm p => .ok { w.dropReservation vm with worker := .deregistering vm p }
  | .deregistering vm p => do
    let w ← w.releaseIfDrained p
    return { w with worker := .publishing vm }
  | .publishing vm =>
    .ok { (w.publish vm .completed none).record (.completed vm) with worker := .settling }
  | .settling => .ok { w with worker := .waiting }
  | .failing vm code =>
    .ok { (w.publish vm .retrying (some code)).record (.failed vm code) with worker := .requeueing vm }
  | .requeueing vm => .ok { w with pending := w.pending ++ [vm], worker := .waiting }
  | .exited => .ok w

/-! ## Runs -/

/-- One section; what ownership rules out changes nothing. -/
def step : PoolAct → Checked PoolWorld
  | .registerCapacity id config =>
    if w.closing then .ok w
    else attempt (w.governor.registerCapacity id config) (fun governor => { w with governor }) w
  | .unregisterCapacity id =>
    attempt (w.governor.unregisterCapacity id) (fun governor => { w with governor }) w
  | .reviseCapacity id config =>
    if w.closing then .ok w
    else attempt (w.governor.reviseCapacity id config) (fun governor => { w with governor }) w
  | .createPool group policy capacityId => w.createPool group policy capacityId
  | .retireExpired p elapsed => .ok (w.retireExpired p elapsed)
  | .prepare p pinned allowNew => w.prepare p pinned allowNew
  | .initializeLease k => w.initializeLease k
  | .allocated k built => w.allocated k built
  | .beginExecution k => w.beginExecution k
  | .endExecution k reusable used => w.endExecution k reusable used
  | .markReady k => w.markReady k
  | .closeLease k => .ok (w.closeLease k)
  | .finish k => .ok (w.finish k)
  | .closePool p => .ok (w.closePool p)
  | .dropPool p => .ok (w.dropPool p)
  | .dropRegistration p => .ok (w.dropRegistration p)
  | .requestClose => .ok w.requestClose
  | .pollClosed => .ok w.pollClosed
  | .turn t => w.turn t
  | .work cleaned => w.work cleaned

def run (w : PoolWorld) : List PoolAct → Checked PoolWorld
  | [] => .ok w
  | a :: acts => (w.step a).bind fun w => run w acts

end PoolWorld

end LuaSkills.Embedded.Pools
