import LuaSkills.Embedded.Governor.Invariant

/-!
# Runs of the governor

The invariant of `GovernorState` together with the ownership of tokens holds after every sequence of
calls. Its consequences are the commitment bound (`run_commitment_le`) and the promise dedicated
owners pay for (`run_reserve_of_lt_guarantee`): an owner below its reserved minimum can always
reserve.
-/

namespace LuaSkills.Embedded

open AList List Except

variable {group id : String} {r : VmReservation} {i : ℕ}

namespace PoolGovernor
variable {g : PoolGovernor}

theorem registerGroupInternal_returns : (g.registerGroupInternal group policy capacityId).Returns := by
  cases capacityId <;> simp [registerGroupInternal]

theorem unregisterGroup_returns : (g.unregisterGroup group).Returns := by
  simp [unregisterGroup]

theorem registerCapacity_returns {config : VmCapacityConfig} :
    (g.registerCapacity id config).Returns := by
  simp [registerCapacity]

theorem unregisterCapacity_returns : (g.unregisterCapacity id).Returns := by
  simp [unregisterCapacity]

theorem reviseCapacity_returns {config : VmCapacityConfig} :
    (g.reviseCapacity id config).Returns := by
  simp [reviseCapacity]

theorem transition_returns {next : VmAllocationState} : (g.transition r expected next).Returns := by
  simp [transition]

theorem markRetiring_returns : (g.markRetiring r).Returns := by
  simp [markRetiring]

theorem dropPermit_returns {p : ExecutionPermit} (h : p.id ∈ g.state.allocations) :
    (g.dropPermit p).Returns := by
  obtain ⟨a, ha⟩ := mem_iff_lookup.1 h
  simp [dropPermit, expect, ha, Checked.Returns, ok_bind, pure_eq_ok]

section
variable {s : GovernorState} {parent : ParentConfig} (H : s.Inv parent) {group : String}
include H

theorem checkCapacityResident_returns : (checkCapacityResident s group).Returns := by
  unfold checkCapacityResident
  split
  · next id hm =>
    obtain ⟨c, hc⟩ := mem_iff_lookup.1 (H.member hm).2
    simp only [expect, hc, okOr_some, ok_bind, Checked.returns_refuseIf]
  · exact Checked.returns_pure

theorem checkCapacityRunning_returns : (checkCapacityRunning s group).Returns := by
  unfold checkCapacityRunning
  split
  · next id hm =>
    obtain ⟨c, hc⟩ := mem_iff_lookup.1 (H.member hm).2
    simp only [expect, hc, okOr_some, ok_bind, Checked.returns_refuseIf]
  · exact Checked.returns_pure

end

theorem reserve_returns (H : g.state.Inv g.config) : (g.reserve group).Returns := by
  simp only [reserve, Checked.returns_bind, Checked.returns_lift, Checked.returns_okOr,
    Checked.returns_refuseIf, Checked.returns_pure, EmbeddedResult.lift_eq_ok, lock_eq_ok, true_and]
  rintro _ ⟨_, rfl⟩ _ _ _ _
  exact ⟨checkCapacityResident_returns H, fun _ _ _ _ _ _ _ _ => trivial⟩

theorem beginExecution_returns (H : g.state.Inv g.config) :
    (g.beginExecution r).Returns := by
  simp only [beginExecution, Checked.returns_bind, Checked.returns_lift, Checked.returns_okOr,
    Checked.returns_refuseIf, Checked.returns_pure, EmbeddedResult.lift_eq_ok, lock_eq_ok, true_and]
  rintro _ ⟨_, rfl⟩ a _ _ _ _ _ _ _
  exact ⟨checkCapacityRunning_returns H, fun _ _ => trivial⟩

/-- The group is granted a further VM, recorded as a new allocation that is being created. -/
def Grants (g : PoolGovernor) (group : String) : Prop :=
  ∃ g' r, g.reserve group = .ok (g', r) ∧ r.id ∉ g.state.allocations ∧
    g'.state.allocations = g.state.allocations.insert r.id ⟨group, .creating⟩

/-- `reserve` succeeds when its four limits have room. -/
theorem reserve_of_room (H : g.state.Inv g.config) (hl : g.poisoned = false)
    (hp : g.state.groups.lookup group = some policy)
    (hr : (g.state.groupUsage group).resident < policy.maxResidentVms)
    (hc : checkCapacityResident g.state group = .ok ())
    (hs : g.state.committed (some group) < g.config.maxResidentVms) (hq : g.state.sequence + 1 < wordBound) :
    g.Grants group := by
  refine ⟨{ g with state := { g.state with
    sequence := g.state.sequence + 1
    allocations := g.state.allocations.insert (g.state.sequence + 1) ⟨group, .creating⟩ } },
    ⟨g.state.sequence + 1⟩, ?_, H.fresh, rfl⟩
  simp only [reserve, bind_eq_ok, refuseIf_eq_ok, EmbeddedResult.lift_eq_ok, lock_eq_ok,
    okOr_eq_ok, checkedAdd_eq_some]
  exact ⟨_, ⟨hl, rfl⟩, policy, hp, (), Nat.not_le.2 hr, (), hc, _, H.commitment_some, (),
    Nat.not_le.2 hs, _, ⟨hq, rfl⟩, rfl⟩

end PoolGovernor

/-! ## The world of clients -/

namespace GovernorWorld
variable {w : GovernorWorld} {config : ParentConfig}

/-- The governor's invariant, an unpoisoned lock, and tokens that name live allocations. -/
structure Inv (w : GovernorWorld) (config : ParentConfig) : Prop where
  config_eq : w.governor.config = config
  poisoned : w.governor.poisoned = false
  state : w.governor.state.Inv w.governor.config
  reservation : ∀ i ∈ w.reservations, i ∈ w.governor.state.allocations
  permit : ∀ i ∈ w.permits, i ∈ w.reservations

theorem Inv.new : (new config).Inv config where
  config_eq := rfl
  poisoned := rfl
  state := .empty
  reservation := by simp [GovernorWorld.new]
  permit := by simp [GovernorWorld.new]

namespace Inv
variable (H : w.Inv config)
include H

theorem state_inv : w.governor.state.Inv config := H.config_eq ▸ H.state

/-- A call that hands out no token. -/
theorem of_moves (h : w.governor.Moves g) : Inv { w with governor := g } config where
  config_eq := h.config.trans H.config_eq
  poisoned := h.poisoned.trans H.poisoned
  state := h.config ▸ H.state.move h.move
  reservation i hi := h.keeps i (H.reservation i hi)
  permit := H.permit

theorem settle {α : Type} {result : Checked α} {k : α → GovernorWorld} (hr : result.Returns)
    (hk : ∀ a, result = .ok a → (k a).Inv config) : (w.settle result k).Inv config := by
  unfold GovernorWorld.settle
  match result with
  | .ok a => exact hk a rfl
  | .error (.err _) => exact H
  | .error (.panic m) => exact absurd rfl (hr m)

theorem settle_moves {result : Checked PoolGovernor} (hr : result.Returns)
    (hm : ∀ g, result = .ok g → w.governor.Moves g) :
    (w.settle result fun g => { w with governor := g }).Inv config :=
  H.settle hr fun g hg => H.of_moves (hm g hg)

theorem reserve : (w.perform (.reserve group)).Inv config := by
  refine H.settle (PoolGovernor.reserve_returns H.state) ?_
  rintro ⟨g, r⟩ h
  obtain ⟨hm, -, ha⟩ := PoolGovernor.reserve_ok h
  have Hm := H.of_moves hm
  refine ⟨Hm.config_eq, Hm.poisoned, Hm.state, fun i hi => ?_,
    fun i hi => mem_cons_of_mem _ (H.permit i hi)⟩
  rcases mem_cons.1 hi with rfl | hi
  · exact ha ▸ (mem_insert _).2 (.inl rfl)
  · exact Hm.reservation i hi

theorem beginExecution (hi : i ∈ w.reservations) :
    (w.perform (.beginExecution i)).Inv config := by
  refine H.settle (PoolGovernor.beginExecution_returns H.state) ?_
  rintro ⟨g, p⟩ h
  obtain ⟨hm, hp⟩ := PoolGovernor.beginExecution_ok h
  have Hm := H.of_moves hm
  refine ⟨Hm.config_eq, Hm.poisoned, Hm.state, Hm.reservation, fun j hj => ?_⟩
  rcases (mem_insert _).1 hj with rfl | hj
  · exact hp ▸ hi
  · exact H.permit j hj

theorem dropReservation (hi : i ∉ w.permits) :
    (w.perform (.dropReservation i)).Inv config where
  config_eq := H.config_eq
  poisoned := H.poisoned
  state := H.state.move (.release i)
  reservation j hj := by
    obtain ⟨hj, hne⟩ := mem_filter.1 hj
    exact mem_erase.2 ⟨of_decide_eq_true hne, H.reservation j hj⟩
  permit j hj := mem_filter.2 ⟨H.permit j hj, decide_eq_true fun e => hi (e ▸ hj)⟩

theorem dropPermit : (w.perform (.dropPermit i)).Inv config := by
  simp only [perform]
  split
  · next previous hp =>
    have hi := H.reservation i (H.permit i (mem_of_lookup hp))
    refine H.settle (PoolGovernor.dropPermit_returns hi) fun g h => ?_
    have Hm := H.of_moves (PoolGovernor.dropPermit_move h)
    exact ⟨Hm.config_eq, Hm.poisoned, Hm.state, Hm.reservation,
      fun j hj => H.permit j (mem_erase.1 hj).2⟩
  · exact H

theorem step : (w.step call).Inv config := by
  unfold GovernorWorld.step
  split
  · next hl =>
    cases call with
    | registerCapacity =>
      exact H.settle_moves PoolGovernor.registerCapacity_returns fun _ => PoolGovernor.registerCapacity_move
    | unregisterCapacity =>
      exact H.settle_moves PoolGovernor.unregisterCapacity_returns fun _ => PoolGovernor.unregisterCapacity_move
    | reviseCapacity =>
      exact H.settle_moves PoolGovernor.reviseCapacity_returns fun _ => PoolGovernor.reviseCapacity_move
    | registerGroup | registerGroupInCapacity =>
      exact H.settle_moves PoolGovernor.registerGroupInternal_returns fun _ => PoolGovernor.registerGroupInternal_move
    | unregisterGroup =>
      exact H.settle_moves PoolGovernor.unregisterGroup_returns fun _ => PoolGovernor.unregisterGroup_move
    | reserve => exact H.reserve
    | markReady =>
      exact H.settle_moves PoolGovernor.transition_returns fun _ => PoolGovernor.transition_move
    | beginExecution =>
      simp only [legal, Bool.and_eq_true, decide_eq_true_eq] at hl
      exact H.beginExecution hl.1
    | markRetiring =>
      exact H.settle_moves PoolGovernor.markRetiring_returns fun _ => PoolGovernor.markRetiring_move
    | dropReservation =>
      simp only [legal, Bool.and_eq_true, decide_eq_true_eq] at hl
      exact H.dropReservation hl.2
    | dropPermit => exact H.dropPermit
  · exact H

end Inv

/-- The invariant holds after every sequence of calls. -/
theorem run_inv (config : ParentConfig) (calls : List GovernorCall) :
    (run config calls).Inv config := by
  have : ∀ w : GovernorWorld, w.Inv config → (calls.foldl step w).Inv config := by
    induction calls with
    | nil => exact fun w H => H
    | cons call calls ih => exact fun w H => ih _ H.step
  exact this _ .new

/-- After every sequence of calls the committed total fits the parent's resident limit; so do the
resident VMs, every group is within its own maximum, memberships and allocations resolve, no
`expect` has failed under the lock, and a revision can subtract every owner's charge. -/
theorem run_commitment_le (config : ParentConfig) (calls : List GovernorCall) :
    let g := (run config calls).governor
    let s := g.state
    s.commitment none = .ok (
      (s.groups.sumBy fun group policy => if group ∈ s.memberships then 0
        else max policy.minResidentVms (s.groupUsage group).resident) +
      s.capacities.sumBy fun id c => max c.minResidentVms (s.capacityUsage id).resident) ∧
    (∀ n, s.commitment none = .ok n → n ≤ config.maxResidentVms) ∧
    (countAllocations s.allocations.values).resident ≤ config.maxResidentVms ∧
    (∀ group policy, s.groups.lookup group = some policy →
      (s.groupUsage group).resident ≤ policy.maxResidentVms) ∧
    (∀ group id, s.memberships.lookup group = some id → id ∈ s.capacities) ∧
    (∀ i a, s.allocations.lookup i = some a → a.group ∈ s.groups) ∧
    g.poisoned = false ∧
    (∀ id c n, s.capacities.lookup id = some c → s.commitment none = .ok n →
      (checkedSub n (max (s.capacityUsage id).resident c.minResidentVms)).isSome) := by
  have H := run_inv config calls
  have hs := H.state_inv
  refine ⟨?_, fun n hn => ?_, ?_, fun _ _ => hs.group_resident, fun _ _ h => (hs.member h).2,
    fun _ _ h => (hs.allocation h).1, H.poisoned, fun id c n h hn => ?_⟩
  · rw [hs.commitment_none, GovernorState.committed_none]
  · rw [GovernorState.eq_committed_of_commitment hn]
    exact hs.committed_le
  · rw [countAllocations_resident]
    exact (length_map _).le.trans hs.resident_le
  · rw [GovernorState.eq_committed_of_commitment hn,
      checkedSub_of_le (GovernorState.Inv.charge_le_committed h)]
    rfl

/-- Dedicated guarantees are redeemable after every sequence of calls: an independent group below
its reserved minimum, and a member group below its own maximum whose capacity is below its reserved
minimum, can reserve a further VM. -/
theorem run_reserve_of_lt_guarantee (config : ParentConfig) (calls : List GovernorCall)
    (hq : (run config calls).governor.state.sequence + 1 < wordBound) :
    let g := (run config calls).governor
    (∀ group policy, g.state.groups.lookup group = some policy → group ∉ g.state.memberships →
      (g.state.groupUsage group).resident < policy.minResidentVms → g.Grants group) ∧
    (∀ id c group policy, g.state.capacities.lookup id = some c →
      (g.state.capacityUsage id).resident < c.minResidentVms →
      g.state.memberships.lookup group = some id → g.state.groups.lookup group = some policy →
      (g.state.groupUsage group).resident < policy.maxResidentVms → g.Grants group) := by
  have H := run_inv config calls
  have hs := H.state
  refine ⟨fun group policy hp hm hlt => ?_, fun id c group policy hc hlt hm hp hr => ?_⟩
  · have ho := GovernorState.ownerOf_eq_inl.2 ⟨hm, rfl⟩
    have hmin := (hs.group_valid hp).min_le
    refine PoolGovernor.reserve_of_room hs H.poisoned hp (hlt.trans_le hmin) ?_
      (hs.committed_some_lt (mem_of_lookup hp) ?_) hq
    · simp only [PoolGovernor.checkCapacityResident, lookup_eq_none.2 hm]
      rfl
    · rw [ho, GovernorState.usageOf_inl hm, GovernorState.guaranteeOf_inl hp]
      exact hlt
  · have ho := GovernorState.ownerOf_eq_inr.2 hm
    have hmin := (hs.capacity_valid hc).min_le
    refine PoolGovernor.reserve_of_room hs H.poisoned hp hr ?_
      (hs.committed_some_lt (mem_of_lookup hp) ?_) hq
    · simp only [PoolGovernor.checkCapacityResident, hm, expect, hc, okOr_some, ok_bind]
      exact refuseIf_of_not (Nat.not_le.2 (hlt.trans_le hmin))
    · rw [ho, GovernorState.usageOf_inr, GovernorState.guaranteeOf_inr hc]
      exact hlt

/-- A capacity with one member, and an independent group. -/
def dedicatedCalls : List GovernorCall :=
  [.registerCapacity "tools" ⟨.dedicated, 1, 3, 2⟩,
    .registerGroup "core" .dedicated,
    .registerGroupInCapacity "search" { PluginPoolConfig.dedicated with minResidentVms := 0 }
      "tools"]

theorem run_reserve_dedicatedCalls :
    (run .small dedicatedCalls).governor.Grants "core" ∧
    (run .small dedicatedCalls).governor.Grants "search" :=
  ⟨(run_reserve_of_lt_guarantee .small dedicatedCalls (by decide +kernel)).1 "core" .dedicated
    (by decide +kernel) (by decide +kernel) (by decide +kernel),
  (run_reserve_of_lt_guarantee .small dedicatedCalls (by decide +kernel)).2 "tools"
    ⟨.dedicated, 1, 3, 2⟩ "search" { PluginPoolConfig.dedicated with minResidentVms := 0 }
    (by decide +kernel) (by decide +kernel) (by decide +kernel) (by decide +kernel)
    (by decide +kernel)⟩

end GovernorWorld

end LuaSkills.Embedded
