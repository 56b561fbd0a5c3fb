import LuaSkills.Data.AssocMap
import LuaSkills.Data.Custody

/-!
# The pool of Lua VMs

The callers of `acquire`, the leases that are out and the monitor they share. A step is what one thread
does while it has the lock, so that a run is any interleaving of the calls. Destructors run after the lock
is given up and change nothing here.
-/

namespace LuaSkills.VmPool

/-- A moment of the monotonic clock, in nanoseconds. -/
abbrev Instant := ℕ

/-- A VM; `id` stands for the native state it owns. -/
structure LuaVm where
  id : ℕ
  lastUsedAt : Instant
deriving DecidableEq

structure LuaVmPoolConfig where
  minSize : ℕ
  maxSize : ℕ
  idleTtlSecs : ℕ
deriving DecidableEq

def LuaVmPoolConfig.normalized (config : LuaVmPoolConfig) : LuaVmPoolConfig where
  minSize := max config.minSize 1
  maxSize := max config.maxSize (max config.minSize 1)
  idleTtlSecs := max config.idleTtlSecs 1

structure LuaVmPoolState where
  available : List LuaVm
  totalCount : ℕ
deriving DecidableEq

/-! ## Reaping -/

section
variable (config : LuaVmPoolConfig) (now : Instant)

/-- The retirement decision for one VM; a VM used after `now` stays. -/
def shouldRemove (vm : LuaVm) : Bool :=
  vm.lastUsedAt ≤ now ∧ config.idleTtlSecs * 10 ^ 9 ≤ now - vm.lastUsedAt

/-- The loop of `reap_idle_locked`. Each round takes a VM out or passes it, so as many rounds as there
are VMs are enough. -/
def reapFrom : ℕ → ℕ → LuaVmPoolState → List LuaVm → LuaVmPoolState × List LuaVm
  | 0, _, state, retired => (state, retired)
  | fuel + 1, index, state, retired =>
    match state.available[index]? with
    | none => (state, retired)
    | some vm =>
      if config.minSize < state.totalCount then
        if shouldRemove config now vm then
          reapFrom fuel index ⟨state.available.swapRemove index, state.totalCount - 1⟩ (retired ++ [vm])
        else
          reapFrom fuel (index + 1) state retired
      else
        (state, retired)

def reapIdleLocked (state : LuaVmPoolState) : LuaVmPoolState × List LuaVm :=
  if state.totalCount ≤ config.minSize then
    (state, [])
  else
    reapFrom config now state.available.length 0 state []

end

/-! ## Prewarming -/

/-- The loop of `prewarm`, before the pool is shared; nobody waits that a release could notify. The
`i`-th VM is built by the `i`-th call of the factory. -/
def prewarmFrom (config : LuaVmPoolConfig) (factory : ℕ → Except String Instant) (clock : ℕ → Instant) :
    ℕ → ℕ → LuaVmPoolState → Except String Unit × LuaVmPoolState
  | 0, _, state => (.ok (), state)
  | fuel + 1, i, state =>
    if state.totalCount < config.minSize then
      match factory i with
      | .ok used =>
        prewarmFrom config factory clock fuel (i + 1)
          (reapIdleLocked config (clock i) ⟨state.available ++ [⟨i, used⟩], state.totalCount + 1⟩).1
      | .error error => (.error error, ⟨state.available, state.totalCount + 1 - 1⟩)
    else
      (.ok (), state)

/-- Prewarming a new pool. A round that succeeds adds one VM, so `min_size` rounds are enough. -/
def prewarm (config : LuaVmPoolConfig) (factory : ℕ → Except String Instant) (clock : ℕ → Instant) :
    Except String Unit × LuaVmPoolState :=
  prewarmFrom config factory clock config.minSize 0 ⟨[], 0⟩

/-! ## The monitor -/

/-- Where a call of `acquire` is: about to lock, asleep, woken by a notification, or in the factory. -/
inductive AcquirePhase where
  | locking
  | waiting
  | notified
  | creating
deriving DecidableEq

/-- A lease without a VM was discarded. -/
structure LuaVmLease where
  vm : Option LuaVm
deriving DecidableEq

structure World where
  config : LuaVmPoolConfig
  state : LuaVmPoolState
  calls : AssocMap ℕ AcquirePhase
  leases : AssocMap ℕ LuaVmLease
  nextLease : ℕ
  nextVm : ℕ
  /-- The calls that returned, with the lease or the error of the factory. -/
  returned : List (ℕ × Except String ℕ)
  /-- A VM was counted out of an empty count. -/
  saturated : Bool

/-- A prewarmed pool that nobody uses yet. -/
def World.new (config : LuaVmPoolConfig) (state : LuaVmPoolState) : World where
  config
  state
  calls := ∅
  leases := ∅
  nextLease := 0
  nextVm := config.minSize
  returned := []
  saturated := false

namespace World
variable (w : World)

/-- `notify_one`: `woken` is the waiter that wakes, which there is unless nobody waits. -/
def notifyOne (woken : Option ℕ) : Option World :=
  match woken with
  | some t =>
    if w.calls.lookup t = some .waiting then
      some { w with calls := w.calls.insert t .notified }
    else
      none
  | none => if w.calls.countBy (· = .waiting) = 0 then some w else none

def countOut : World :=
  { w with
    state := { w.state with totalCount := w.state.totalCount - 1 }
    saturated := w.saturated || w.state.totalCount = 0 }

def lend (t : ℕ) (vm : LuaVm) : World :=
  { w with
    calls := w.calls.erase t
    leases := w.leases.insert w.nextLease ⟨some vm⟩
    nextLease := w.nextLease + 1
    returned := w.returned ++ [(t, .ok w.nextLease)] }

/-- A round of `acquire` from the lock to the next time it is given up. -/
def acquireRound (t : ℕ) (now used : Instant) : World :=
  let (state, retired) := reapIdleLocked w.config now w.state
  if retired ≠ [] then
    { w with state, calls := w.calls.insert t .locking }
  else
    match state.available.getLast? with
    | some vm =>
      lend { w with state := { state with available := state.available.dropLast } } t
        { vm with lastUsedAt := used }
    | none =>
      if state.totalCount < w.config.maxSize then
        { w with
          state := { state with totalCount := state.totalCount + 1 }
          calls := w.calls.insert t .creating }
      else
        { w with state, calls := w.calls.insert t .waiting }

def release (vm : LuaVm) (now : Instant) (woken : Option ℕ) : Option World :=
  let (state, _) := reapIdleLocked w.config now { w.state with available := w.state.available ++ [vm] }
  notifyOne { w with state } woken

/-- What a thread may do. A waiter may also wake without a notification. -/
inductive Act where
  | acquire (call : ℕ)
  | round (call : ℕ) (now used : Instant)
  | wakeUp (call : ℕ)
  | created (call : ℕ) (used : Instant)
  | failed (call : ℕ) (error : String) (woken : Option ℕ)
  | dropLease (lease : ℕ) (used now : Instant) (woken : Option ℕ)
  | discard (lease : ℕ) (woken : Option ℕ)

def step : Act → Option World
  | .acquire t => if t ∈ w.calls then none else some { w with calls := w.calls.insert t .locking }
  | .round t now used =>
    match w.calls.lookup t with
    | some .locking | some .notified => some (w.acquireRound t now used)
    | _ => none
  | .wakeUp t =>
    match w.calls.lookup t with
    | some .waiting => some { w with calls := w.calls.insert t .locking }
    | _ => none
  | .created t used =>
    match w.calls.lookup t with
    | some .creating => some (lend { w with nextVm := w.nextVm + 1 } t ⟨w.nextVm, used⟩)
    | _ => none
  | .failed t error woken =>
    match w.calls.lookup t with
    | some .creating =>
      notifyOne { w.countOut with
        calls := w.calls.erase t
        returned := w.returned ++ [(t, .error error)] } woken
    | _ => none
  | .dropLease l used now woken =>
    match w.leases.lookup l with
    | some ⟨some vm⟩ =>
      release { w with leases := w.leases.erase l } { vm with lastUsedAt := used } now woken
    | some ⟨none⟩ => some { w with leases := w.leases.erase l }
    | none => none
  | .discard l woken =>
    match w.leases.lookup l with
    | some ⟨some _⟩ => notifyOne { w.countOut with leases := w.leases.insert l ⟨none⟩ } woken
    | some ⟨none⟩ => some w
    | none => none

def run (acts : List Act) : Option World := acts.foldlM step w

end World

end LuaSkills.VmPool
