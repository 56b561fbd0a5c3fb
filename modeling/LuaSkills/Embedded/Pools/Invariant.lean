import LuaSkills.Embedded.Pools.Books

/-!
# The invariant of the pools

Six parts: registrations and groups agree (`Seated`), every machine and every reservation has one owner
(`Owned`), calls under way end as they promise (`Orderly`), receipts say where a machine is (`Receipted`),
the log counts what happened (`Chronicle`), and a drained registration is always about to be released
(`Awaited`).
-/

namespace LuaSkills.Embedded.Pools

open List

namespace PoolWorld
variable (w : PoolWorld)

/-- How often a section is still to come. -/
def due (a : PoolAction) : ℕ := w.threads.flatten.count a

def homes (vm : ℕ) : ℕ :=
  w.leases.countBy (·.holding.houses vm) + w.pools.sumBy (fun _ pool => pool.idle.count vm) +
    w.due (.push vm) + w.pending.count vm + (w.worker.houses vm).toNat

/-- The hands that have a reservation without a machine. -/
def bare (vm : ℕ) : ℕ :=
  w.leases.countBy (·.holding.reserves vm) + (w.worker.reserves vm).toNat

/-- Group and guarantee of a pool that is not released. -/
def registration (p : ℕ) : Option (String × PluginPoolConfig) :=
  (w.pools.lookup p).bind fun pool => if pool.released then none else some (pool.group, pool.policy)

/-- No machine comes into the pool any more. -/
def Shut (p : ℕ) : Prop :=
  ∃ pool, w.pools.lookup p = some pool ∧ (pool.closed = true ∨ pool.alive = false)

/-- Someone will look at the registration again. -/
def Coming (p : ℕ) : Prop :=
  0 < w.due (.releaseIfDrained p) ∨ (∃ k l, w.leases.lookup k = some l ∧ l.pool = p) ∨
    ∃ vm, w.worker = .deregistering vm p

/-- Where a machine with a receipt of the given phase is. -/
def Stage (vm : ℕ) : ModuleRetirementPhase → Prop
  | .live => True
  | .queued => 0 < w.due (.push vm) ∨ vm ∈ w.pending ∨ w.worker = .popped vm
  | .running => w.worker.runs vm
  | .retrying => vm ∈ w.pending ∨ w.worker = .popped vm ∨ w.worker = .requeueing vm
  | .completed => vm ∉ w.governor.state.allocations

/-- `vm` is charged to the group of the pool, which is registered. -/
def Seat (reg : ℕ → Option (String × PluginPoolConfig)) (own : ℕ → Option String) (vm p : ℕ) : Prop :=
  ∃ c, reg p = some c ∧ own vm = some c.1

structure Seated (reg : ℕ → Option (String × PluginPoolConfig)) (own : ℕ → Option String)
    (groups : AssocMap String PluginPoolConfig) (residents : AssocMap ℕ ResidentModule)
    (leases : AssocMap ℕ ModuleLease) (worker : RetirementWorker) : Prop where
  resident : ∀ vm r, residents.lookup vm = some r → Seat reg own vm r.pool
  lease : ∀ k l vm, leases.lookup k = some l → l.holding.reserves vm → Seat reg own vm l.pool
  permit : ∀ k l, leases.lookup k = some l → l.holding.Permitted
  worker : ∀ vm p, worker = .unreserving vm p → Seat reg own vm p
  registered : ∀ group policy, groups.lookup group = some policy ↔ ∃ p, reg p = some (group, policy)
  unique : ∀ p q c d, reg p = some c → reg q = some d → c.1 = d.1 → p = q

structure Owned : Prop where
  home : ∀ vm, w.homes vm = if vm ∈ w.residents then 1 else 0
  owner : ∀ vm, w.homes vm + w.bare vm = if vm ∈ w.governor.state.allocations then 1 else 0

structure Orderly : Prop where
  pool : ∀ p ∈ w.pools, p < w.nextPool
  lease : ∀ k ∈ w.leases, k < w.nextLease
  follows : ∀ th ∈ w.threads, Follows th
  shut : ∀ p, 0 < w.due (.setClosing p) → w.Shut p
  closing : ∀ p pool, w.pools.lookup p = some pool → pool.closing = true → w.Shut p
  released : ∀ p pool, w.pools.lookup p = some pool → pool.released = true → pool.closing = true

structure Receipted : Prop where
  known : ∀ vm ∈ w.residents, vm ∈ w.receipts
  old : ∀ vm ∈ w.receipts, vm ≤ w.governor.state.sequence
  stage : ∀ vm s, w.receipts.lookup vm = some s → w.Stage vm s.phase
  running : ∀ vm, w.worker.runs vm → (w.receipts.lookup vm).any (·.phase = .running)
  gone : ∀ vm, w.worker.finishes vm → vm ∉ w.governor.state.allocations

structure Chronicle : Prop where
  queued : ∀ vm, w.log.count (.queued vm) =
    w.pending.count vm + (w.worker.serves vm).toNat + w.log.count (.completed vm)
  completed : ∀ vm, w.log.count (.completed vm) =
    ((w.receipts.lookup vm).any (·.phase = .completed)).toNat
  released : ∀ p, w.log.count (.released p) = ((w.pools.lookup p).any (·.released)).toNat
  failed : ∀ vm code, .failed vm code ∈ w.log → .queued vm ∈ w.log

/-- A closing registration to which nothing is charged will be looked at again. -/
def Awaited : Prop :=
  ∀ p pool c, w.pools.lookup p = some pool → pool.closing = true → w.registration p = some c →
    (∀ vm, groupOf w.governor vm ≠ some c.1) → w.Coming p

structure Inv : Prop where
  governor : w.governor.state.Inv w.governor.config
  poisoned : w.governor.poisoned = false
  seated : Seated w.registration (groupOf w.governor) w.governor.state.groups w.residents w.leases
    w.worker
  owned : w.Owned
  orderly : w.Orderly
  receipted : w.Receipted
  chronicle : w.Chronicle
  awaited : w.Awaited

variable {w}

theorem Receipted.open_of_mem (R : w.Receipted) (h : vm ∈ w.governor.state.allocations) :
    (w.receipts.lookup vm).any (·.phase = .completed) = false := by
  cases hs : w.receipts.lookup vm with
  | none => rfl
  | some s =>
    refine decide_eq_false fun hphase => ?_
    have := R.stage vm s hs
    rw [hphase] at this
    exact this h

theorem Stage.imp {w' : PoolWorld} (h : w.Stage vm phase)
    (hqueued : w.Stage vm .queued → w'.Stage vm .queued)
    (hrunning : w.Stage vm .running → w'.Stage vm .running)
    (hretrying : w.Stage vm .retrying → w'.Stage vm .retrying)
    (hcompleted : w.Stage vm .completed → w'.Stage vm .completed) : w'.Stage vm phase := by
  cases phase with
  | live => trivial
  | queued => exact hqueued h
  | running => exact hrunning h
  | retrying => exact hretrying h
  | completed => exact hcompleted h

/-- The log counts one more event. -/
theorem Chronicle.record {w' : PoolWorld} (C : w.Chronicle) (hlog : w'.log = w.log ++ [e])
    (hqueued : ∀ vm, w'.pending.count vm + (w'.worker.serves vm).toNat +
      (if e = .completed vm then 1 else 0) =
        w.pending.count vm + (w.worker.serves vm).toNat + if e = .queued vm then 1 else 0)
    (hcompleted : ∀ vm, ((w'.receipts.lookup vm).any (·.phase = .completed)).toNat =
      ((w.receipts.lookup vm).any (·.phase = .completed)).toNat + if e = .completed vm then 1 else 0)
    (hreleased : ∀ p, ((w'.pools.lookup p).any (·.released)).toNat =
      ((w.pools.lookup p).any (·.released)).toNat + if e = .released p then 1 else 0)
    (hfailed : ∀ vm code, e = .failed vm code → .queued vm ∈ w.log) : w'.Chronicle := by
  have hcount : ∀ e', w'.log.count e' = w.log.count e' + if e = e' then 1 else 0 := by
    intro e'
    rw [hlog, count_append, count_singleton]
    simp only [beq_iff_eq]
  refine ⟨fun vm => ?_, fun vm => ?_, fun p => ?_, fun vm code hf => ?_⟩
  · have := C.queued vm
    have := hqueued vm
    rw [hcount, hcount]
    omega
  · rw [hcount, C.completed, hcompleted]
  · rw [hcount, C.released, hreleased]
  · rw [hlog] at hf ⊢
    rcases mem_append.1 hf with hf | hf
    · exact mem_append_left _ (C.failed vm code hf)
    · exact mem_append_left _ (hfailed vm code (mem_singleton.1 hf).symm)

theorem Inv.new (config : ParentConfig) : (new config).Inv where
  governor := .empty
  poisoned := rfl
  seated := {
    resident := fun _ _ h => by simp [PoolWorld.new] at h
    lease := fun _ _ _ h => by simp [PoolWorld.new] at h
    permit := fun _ _ h => by simp [PoolWorld.new] at h
    worker := fun _ _ h => by simp [PoolWorld.new] at h
    registered := fun _ _ => by
      simp [PoolWorld.new, registration, PoolGovernor.new, GovernorState.empty]
    unique := fun _ _ _ _ h => by simp [PoolWorld.new, registration] at h }
  owned := ⟨fun vm => (if_neg (AList.notMem_empty vm)).symm,
    fun vm => (if_neg (AList.notMem_empty vm)).symm⟩
  orderly := by constructor <;> simp [PoolWorld.new, due]
  receipted := by constructor <;> simp [PoolWorld.new, RetirementWorker.runs, RetirementWorker.finishes]
  chronicle := by constructor <;> simp [PoolWorld.new, RetirementWorker.serves]
  awaited := by simp [PoolWorld.new, Awaited]

end PoolWorld

end LuaSkills.Embedded.Pools
