import LuaSkills.Embedded.Pools.State

/-!
# The books of the pools

Where a machine is, and what that says about the governor, the receipts and the log. `homes` counts the
hands a built machine is in and `bare` those that hold a reservation without one; a machine is resident
when it has a home, and its reservation is charged as long as it has either.
-/

namespace LuaSkills.Embedded.Pools

open AList List Except PoolGovernor

variable {r : VmReservation} {vm v : ℕ} {rest : List PoolAction}

/-! ## The governor -/

section
variable {g g' : PoolGovernor} {group : String} {vm : ℕ}

/-- The group a reservation is charged to. -/
def groupOf (g : PoolGovernor) (vm : ℕ) : Option String :=
  (g.state.allocations.lookup vm).map (·.group)

theorem groupOf_isSome : (groupOf g vm).isSome ↔ vm ∈ g.state.allocations := by
  rw [groupOf, Option.isSome_map, lookup_isSome]

theorem mem_of_groupOf (h : groupOf g vm = some group) : vm ∈ g.state.allocations :=
  groupOf_isSome.1 (h ▸ rfl)

theorem groupOf_adjust {s : GovernorState} {id : ℕ} {next : VmAllocationState} :
    ((s.allocations.adjust id ({ · with phase := next })).lookup vm).map (·.group) =
      (s.allocations.lookup vm).map (·.group) := by
  rw [lookup_adjust_eq]
  split
  · next h =>
    subst h
    cases s.allocations.lookup vm <;> rfl
  · rfl

/-- A call that leaves groups and reservations alone, phases apart. -/
structure Keeps (g g' : PoolGovernor) : Prop where
  moves : g.Moves g'
  groups : g'.state.groups = g.state.groups
  sequence : g'.state.sequence = g.state.sequence
  groupOf : ∀ vm, groupOf g' vm = groupOf g vm

theorem Keeps.mem (K : Keeps g g') : vm ∈ g'.state.allocations ↔ vm ∈ g.state.allocations := by
  rw [← groupOf_isSome, K.groupOf, groupOf_isSome]

theorem registerCapacity_keeps {id : String} {config : VmCapacityConfig}
    (h : g.registerCapacity id config = .ok g') : Keeps g g' := by
  have M := registerCapacity_move h
  simp only [registerCapacity, bind_eq_ok, refuseIf_eq_ok,
    EmbeddedResult.lift_eq_ok, lock_eq_ok] at h
  obtain ⟨_, _, _, _, _, ⟨_, rfl⟩, _, _, _, _, _, _, _, _, h⟩ := h
  cases h
  exact ⟨M, rfl, rfl, fun _ => rfl⟩

theorem unregisterCapacity_keeps {id : String} (h : g.unregisterCapacity id = .ok g') :
    Keeps g g' := by
  have M := unregisterCapacity_move h
  simp only [unregisterCapacity, bind_eq_ok, refuseIf_eq_ok,
    EmbeddedResult.lift_eq_ok, lock_eq_ok] at h
  obtain ⟨_, ⟨_, rfl⟩, _, _, _, _, h⟩ := h
  cases h
  exact ⟨M, rfl, rfl, fun _ => rfl⟩

theorem reviseCapacity_keeps {id : String} {config : VmCapacityConfig}
    (h : g.reviseCapacity id config = .ok g') : Keeps g g' := by
  have M := reviseCapacity_move h
  simp only [reviseCapacity, bind_eq_ok, refuseIf_eq_ok,
    EmbeddedResult.lift_eq_ok, lock_eq_ok, okOr_eq_ok] at h
  obtain ⟨_, _, _, ⟨_, rfl⟩, _, _, _, _, _, _, _, _, h⟩ := h
  cases h
  exact ⟨M, rfl, rfl, fun _ => rfl⟩

theorem transition_keeps {next : VmAllocationState} (h : g.transition r expected next = .ok g') : Keeps g g' := by
  have M := transition_move h
  simp only [transition, bind_eq_ok, refuseIf_eq_ok, EmbeddedResult.lift_eq_ok,
    lock_eq_ok] at h
  obtain ⟨_, ⟨_, rfl⟩, _, _, _, _, h⟩ := h
  cases h
  exact ⟨M, rfl, rfl, fun _ => groupOf_adjust⟩

theorem markRetiring_keeps (h : g.markRetiring r = .ok g') : Keeps g g' := by
  have M := markRetiring_move h
  simp only [markRetiring, bind_eq_ok, refuseIf_eq_ok,
    EmbeddedResult.lift_eq_ok, lock_eq_ok] at h
  obtain ⟨_, ⟨_, rfl⟩, _, _, _, _, h⟩ := h
  cases h
  exact ⟨M, rfl, rfl, fun _ => groupOf_adjust⟩

theorem beginExecution_keeps (h : g.beginExecution r = .ok (g', p)) : Keeps g g' ∧ p.id = r.id := by
  obtain ⟨M, hp⟩ := beginExecution_ok h
  simp only [beginExecution, bind_eq_ok, refuseIf_eq_ok,
    EmbeddedResult.lift_eq_ok, lock_eq_ok] at h
  obtain ⟨_, ⟨_, rfl⟩, _, _, _, _, _, _, _, _, _, _, h⟩ := h
  cases h
  exact ⟨⟨M, rfl, rfl, fun _ => groupOf_adjust⟩, hp⟩

theorem dropPermit_keeps (h : g.dropPermit p = .ok g') : Keeps g g' := by
  have M := dropPermit_move h
  simp only [dropPermit, bind_eq_ok] at h
  obtain ⟨_, _, h⟩ := h
  cases h
  exact ⟨M, rfl, rfl, fun _ => groupOf_adjust⟩

theorem reserve_spec (h : g.reserve group = .ok (g', r)) :
    g.Moves g' ∧ r.id = g.state.sequence + 1 ∧ g'.state.sequence = r.id ∧
      g'.state.groups = g.state.groups ∧
      ∀ vm, groupOf g' vm = if vm = r.id then some group else groupOf g vm := by
  obtain ⟨M, hr, ha⟩ := reserve_ok h
  simp only [reserve, bind_eq_ok, refuseIf_eq_ok, EmbeddedResult.lift_eq_ok,
    lock_eq_ok, okOr_eq_ok, checkedAdd_eq_some] at h
  obtain ⟨_, ⟨_, rfl⟩, _, _, _, _, _, _, _, _, _, _, _, ⟨_, rfl⟩, h⟩ := h
  cases h
  refine ⟨M, rfl, rfl, rfl, fun vm => ?_⟩
  rw [groupOf, ha, lookup_insert_eq]
  split
  · rfl
  · rfl

theorem registerGroup_spec (h : g.registerGroupInternal group policy capacityId = .ok g') :
    g.Moves g' ∧ group ∉ g.state.groups ∧ g'.state.groups = g.state.groups.insert group policy ∧
      g'.state.sequence = g.state.sequence ∧ ∀ vm, groupOf g' vm = groupOf g vm := by
  have M := registerGroupInternal_move h
  simp only [registerGroupInternal, bind_eq_ok, refuseIf_eq_ok,
    EmbeddedResult.lift_eq_ok, lock_eq_ok] at h
  obtain ⟨_, _, _, _, _, ⟨_, rfl⟩, _, hg, _, _, h⟩ := h
  cases capacityId with
  | some id =>
    simp only [bind_eq_ok, refuseIf_eq_ok, okOr_eq_ok] at h
    obtain ⟨_, _, _, _, h⟩ := h
    cases h
    exact ⟨M, hg, rfl, rfl, fun _ => rfl⟩
  | none =>
    simp only [bind_eq_ok, refuseIf_eq_ok, EmbeddedResult.lift_eq_ok] at h
    obtain ⟨_, _, _, _, h⟩ := h
    cases h
    exact ⟨M, hg, rfl, rfl, fun _ => rfl⟩

theorem groupUsage_eq_zero :
    (g.state.groupUsage group).resident = 0 ↔ ∀ vm, groupOf g vm ≠ some group := by
  rw [GovernorState.groupUsage_resident, countBy_eq_zero]
  constructor
  · intro h vm hvm
    obtain ⟨a, ha, rfl⟩ := Option.map_eq_some_iff.1 hvm
    exact of_decide_eq_false (h vm a ha) rfl
  · intro h vm a ha
    apply decide_eq_false
    intro e
    exact h vm (by rw [groupOf, ha, Option.map_some, e])

/-- A registered group leaves exactly when nothing is charged to it. -/
theorem unregisterGroup_spec (hp : g.poisoned = false) (hg : group ∈ g.state.groups) :
    (∃ e, g.unregisterGroup group = .error (.err e) ∧ ∃ vm, groupOf g vm = some group) ∨
    ∃ g', g.unregisterGroup group = .ok g' ∧ g.Moves g' ∧
      (∀ vm, groupOf g vm ≠ some group) ∧ g'.state.groups = g.state.groups.erase group ∧
      g'.state.sequence = g.state.sequence ∧ ∀ vm, groupOf g' vm = groupOf g vm := by
  have hl : g.lock = .ok g.state := lock_eq_ok.2 ⟨hp, rfl⟩
  by_cases hu : (g.state.groupUsage group).resident = 0
  · right
    have h : g.unregisterGroup group = .ok { g with state := { g.state with
        groups := g.state.groups.erase group
        memberships := g.state.memberships.erase group } } := by
      simp only [unregisterGroup, hl, EmbeddedResult.lift, bind_eq_ok]
      exact ⟨_, rfl, (), refuseIf_of_not (not_not.2 hg), (), refuseIf_of_not (not_not.2 hu), rfl⟩
    exact ⟨_, h, unregisterGroup_move h, groupUsage_eq_zero.1 hu, rfl, rfl, fun _ => rfl⟩
  · left
    refine ⟨.busy "execution group still owns resident allocations", ?_, ?_⟩
    · simp only [unregisterGroup, hl, EmbeddedResult.lift, bind_eq_error]
      exact .inr ⟨_, rfl, .inr ⟨(), refuseIf_of_not (not_not.2 hg), .inl
        (refuseIf_eq_error.2 ⟨hu, rfl⟩)⟩⟩
    · by_contra hn
      exact hu (groupUsage_eq_zero.2 fun vm hvm => hn ⟨vm, hvm⟩)

theorem groupOf_dropReservation :
    groupOf (g.dropReservation r) vm = if vm = r.id then none else groupOf g vm := by
  rw [groupOf, dropReservation, lookup_erase_eq]
  split <;> rfl

end

/-! ## Hands -/

theorem mark_le_one {c : Prop} [Decidable c] : (if c then 1 else 0) ≤ 1 := by
  split
  · exact Nat.le_refl 1
  · exact Nat.zero_le 1

def Holding.reserves (vm : ℕ) : Holding → Bool
  | .pending v | .allocating v _ => v = vm
  | _ => false

def Holding.houses (vm : ℕ) : Holding → Bool
  | .resident v | .executing v _ => v = vm
  | _ => false

@[simp] theorem Holding.reserves_nothing : Holding.nothing.reserves vm = false := rfl

@[simp] theorem Holding.houses_nothing : Holding.nothing.houses vm = false := rfl

@[simp] theorem Holding.houses_resident :
    (Holding.resident v).houses vm = decide (v = vm) := rfl

@[simp] theorem Holding.reserves_pending :
    (Holding.pending v).reserves vm = decide (v = vm) := rfl

@[simp] theorem Holding.reserves_resident :
    (Holding.resident v).reserves vm = false := rfl

@[simp] theorem Holding.reserves_allocating :
    (Holding.allocating v permit).reserves vm = decide (v = vm) := rfl

@[simp] theorem Holding.houses_allocating : (Holding.allocating v permit).houses vm = false := rfl

/-- A permit is one of the reservation it stands beside. -/
def Holding.Permitted : Holding → Prop
  | .allocating vm permit | .executing vm permit => permit.id = vm
  | _ => True

namespace RetirementWorker

def houses (vm : ℕ) : RetirementWorker → Bool
  | .popped v | .cleaning v | .destroying v | .failing v _ | .requeueing v => v = vm
  | _ => false

/-- The worker has only the reservation left. -/
def reserves (vm : ℕ) : RetirementWorker → Bool
  | .unreserving v _ => v = vm
  | _ => false

/-- The receipt says that the retirement is running. -/
def runs (vm : ℕ) : RetirementWorker → Bool
  | .cleaning v | .destroying v | .unreserving v _ | .deregistering v _ | .publishing v | .failing v _ =>
    v = vm
  | _ => false

/-- Machine and reservation are gone, and the receipt is still to come. -/
def finishes (vm : ℕ) : RetirementWorker → Bool
  | .deregistering v _ | .publishing v => v = vm
  | _ => false

/-- The worker has taken the retirement and has not answered for it. -/
def serves (vm : ℕ) : RetirementWorker → Bool
  | .popped v | .cleaning v | .destroying v | .unreserving v _ | .deregistering v _ | .publishing v
  | .failing v _ | .requeueing v => v = vm
  | _ => false

end RetirementWorker

/-- What the head of a call promises of the rest. -/
def Promises (rest : List PoolAction) : PoolAction → Prop
  | .mark vm | .queue vm => .push vm ∈ rest
  | .setClosing p => .releaseIfDrained p ∈ rest
  | .readUsage => rest = [.tryShutdown, .join]
  | .tryShutdown => rest = [.join]
  | .join => rest = []
  | _ => True

def Follows : List PoolAction → Prop
  | [] => True
  | a :: rest => Promises rest a ∧ Follows rest

theorem Follows.enqueue (vm : ℕ) (h : Follows rest) :
    Follows (enqueue vm ++ rest) := by
  simp [Pools.enqueue, Follows, Promises, h]

theorem Follows.requestRetirement (p : ℕ) (h : Follows rest) :
    Follows (requestRetirement p ++ rest) := by
  simp [Pools.requestRetirement, Follows, Promises, h]

theorem Follows.flatMap_enqueue (vms : List ℕ) (h : Follows rest) :
    Follows (vms.flatMap Pools.enqueue ++ rest) := by
  induction vms with
  | nil => exact h
  | cons vm vms ih =>
    rw [flatMap_cons, append_assoc]
    exact ih.enqueue vm

section
variable {threads : List (List PoolAction)} {th rest : List PoolAction} {a : PoolAction} {t : ℕ}

/-- A call goes on with another rest. -/
theorem count_flatten_set (rest : List PoolAction) (h : threads[t]? = some th) :
    (threads.set t rest).flatten.count a + th.count a = threads.flatten.count a + rest.count a := by
  induction threads generalizing t with
  | nil => cases h
  | cons x threads ih =>
    cases t with
    | zero =>
      cases h
      simp only [set_cons_zero, flatten_cons, count_append]
      omega
    | succ t =>
      have := ih (t := t) h
      simp only [set_cons_succ, flatten_cons, count_append]
      omega

theorem count_push_enqueue {vms : List ℕ} :
    (vms.flatMap enqueue).count (.push vm) = vms.count vm := by
  induction vms with
  | nil => rfl
  | cons v vms ih =>
    rw [flatMap_cons, count_append, ih, count_cons]
    by_cases h : v = vm <;> simp [enqueue, h, Nat.add_comm]

end

end LuaSkills.Embedded.Pools
