import LuaSkills.Embedded.Governor.Ledger

/-!
# The commitment invariant

`GovernorState.Move` says once what a successful governor call may write, guards included; the
lemmas `PoolGovernor.*_move` show that each call is such a move. `GovernorState.Inv` is the
invariant: accepted policies, no dangling membership or allocation, resident counts within their
group limit, and solvent books. `Inv.move` preserves it through every move, and
`GovernorWorld.run_inv` carries it through every sequence of calls.
-/

namespace LuaSkills.Embedded

open AList Function Except GuaranteeLedger

variable {group : String} {policy : PluginPoolConfig} {config : VmCapacityConfig} {r : VmReservation}
  {i : ℕ}

/-! ## What a call may write -/

/-- The writes of the successful calls, each with the checks that precede it. -/
inductive GovernorState.Move (parent : ParentConfig) (s : GovernorState) : GovernorState → Prop
  | registerMember {group id : String} {policy : PluginPoolConfig} {owner : VmCapacityConfig} :
    policy.capacity.Valid parent.toEmbeddedRuntimeConfig → group ∉ s.groups →
    s.capacities.lookup id = some owner → policy.maxRunningCalls ≤ owner.maxRunningCalls →
    Move parent s { s with
      groups := s.groups.insert group policy, memberships := s.memberships.insert group id }
  | registerIndependent {group : String} {policy : PluginPoolConfig} :
    policy.capacity.Valid parent.toEmbeddedRuntimeConfig → group ∉ s.groups →
    policy.minResidentVms ≤ parent.maxResidentVms - s.committed none →
    Move parent s { s with groups := s.groups.insert group policy }
  | unregisterGroup {group : String} : (s.groupUsage group).resident = 0 →
    Move parent s { s with
      groups := s.groups.erase group, memberships := s.memberships.erase group }
  | registerCapacity {id : String} {config : VmCapacityConfig} :
    config.Valid parent.toEmbeddedRuntimeConfig → id ∉ s.capacities →
    config.minResidentVms ≤ parent.maxResidentVms - s.committed none →
    Move parent s { s with capacities := s.capacities.insert id config }
  | unregisterCapacity {id : String} : id ∉ s.memberships.values →
    Move parent s { s with capacities := s.capacities.erase id }
  | reviseCapacity {id : String} {previous config : VmCapacityConfig} :
    config.Valid parent.toEmbeddedRuntimeConfig → s.capacities.lookup id = some previous →
    s.committed none - max (s.capacityUsage id).resident previous.minResidentVms +
      max (s.capacityUsage id).resident config.minResidentVms ≤ parent.maxResidentVms →
    Move parent s { s with capacities := s.capacities.insert id config }
  | reserve {group : String} {policy : PluginPoolConfig} : s.groups.lookup group = some policy →
    (s.groupUsage group).resident < policy.maxResidentVms →
    s.committed (some group) < parent.maxResidentVms →
    Move parent s { s with
      sequence := s.sequence + 1
      allocations := s.allocations.insert (s.sequence + 1) ⟨group, .creating⟩ }
  | phase (id : ℕ) (next : VmAllocationState) :
    Move parent s { s with allocations := s.allocations.adjust id ({ · with phase := next }) }
  | release (id : ℕ) : Move parent s { s with allocations := s.allocations.erase id }

namespace PoolGovernor
variable {g g' : PoolGovernor}

/-- A successful call that is not the drop of a reservation. -/
structure Moves (g g' : PoolGovernor) : Prop where
  config : g'.config = g.config
  poisoned : g'.poisoned = g.poisoned
  move : g.state.Move g.config g'.state
  keeps : ∀ i ∈ g.state.allocations, i ∈ g'.state.allocations

theorem lock_eq_ok : g.lock = .ok s ↔ g.poisoned = false ∧ s = g.state := by
  unfold lock
  cases g.poisoned <;> simp [eq_comm]

theorem registerGroupInternal_move (h : g.registerGroupInternal group policy capacityId = .ok g') :
    g.Moves g' := by
  simp only [registerGroupInternal, bind_eq_ok, refuseIf_eq_ok, EmbeddedResult.lift_eq_ok,
    lock_eq_ok] at h
  obtain ⟨_, _, _, hv, _, ⟨_, rfl⟩, _, hg, _, _, h⟩ := h
  have hv := PluginPoolConfig.valid_of_validate hv
  cases capacityId with
  | some id =>
    simp only [bind_eq_ok, refuseIf_eq_ok, okOr_eq_ok] at h
    obtain ⟨owner, ho, _, hc, h⟩ := h
    cases h
    exact ⟨rfl, rfl, .registerMember hv hg ho (by omega), fun _ h => h⟩
  | none =>
    simp only [bind_eq_ok, refuseIf_eq_ok, EmbeddedResult.lift_eq_ok] at h
    obtain ⟨n, hn, _, hc, h⟩ := h
    cases h
    rw [GovernorState.eq_committed_of_commitment hn] at hc
    exact ⟨rfl, rfl, .registerIndependent hv hg (by omega), fun _ h => h⟩

theorem unregisterGroup_move (h : g.unregisterGroup group = .ok g') :
    g.Moves g' := by
  simp only [unregisterGroup, bind_eq_ok, refuseIf_eq_ok, EmbeddedResult.lift_eq_ok,
    lock_eq_ok] at h
  obtain ⟨_, ⟨_, rfl⟩, _, _, _, hr, h⟩ := h
  cases h
  exact ⟨rfl, rfl, .unregisterGroup (by omega), fun _ h => h⟩

theorem registerCapacity_move {id : String}
    (h : g.registerCapacity id config = .ok g') : g.Moves g' := by
  simp only [registerCapacity, bind_eq_ok, refuseIf_eq_ok, EmbeddedResult.lift_eq_ok,
    lock_eq_ok] at h
  obtain ⟨_, _, _, hv, _, ⟨_, rfl⟩, _, hid, _, _, n, hn, _, hc, h⟩ := h
  cases h
  rw [GovernorState.eq_committed_of_commitment hn] at hc
  exact ⟨rfl, rfl, .registerCapacity (VmCapacityConfig.valid_of_validate hv) hid (by omega),
    fun _ h => h⟩

theorem unregisterCapacity_move {id : String} (h : g.unregisterCapacity id = .ok g') :
    g.Moves g' := by
  simp only [unregisterCapacity, bind_eq_ok, refuseIf_eq_ok, EmbeddedResult.lift_eq_ok,
    lock_eq_ok] at h
  obtain ⟨_, ⟨_, rfl⟩, _, _, _, hm, h⟩ := h
  cases h
  exact ⟨rfl, rfl, .unregisterCapacity hm, fun _ h => h⟩

theorem reviseCapacity_move {id : String}
    (h : g.reviseCapacity id config = .ok g') : g.Moves g' := by
  simp only [reviseCapacity, bind_eq_ok, refuseIf_eq_ok, EmbeddedResult.lift_eq_ok,
    lock_eq_ok, okOr_eq_ok, Option.bind_eq_some_iff, checkedSub_eq_some, checkedAdd_eq_some] at h
  obtain ⟨_, hv, _, ⟨_, rfl⟩, previous, hp, n, hn, _, ⟨_, ⟨_, rfl⟩, _, rfl⟩, _, hc, h⟩ := h
  cases h
  rw [GovernorState.eq_committed_of_commitment hn] at hc
  exact ⟨rfl, rfl, .reviseCapacity (VmCapacityConfig.valid_of_validate hv) hp (by omega),
    fun _ h => h⟩

theorem reserve_ok (h : g.reserve group = .ok (g', r)) :
    g.Moves g' ∧ r.id = g.state.sequence + 1 ∧ g'.state.allocations =
      g.state.allocations.insert r.id ⟨group, .creating⟩ := by
  simp only [reserve, bind_eq_ok, refuseIf_eq_ok, EmbeddedResult.lift_eq_ok,
    lock_eq_ok, okOr_eq_ok, checkedAdd_eq_some] at h
  obtain ⟨_, ⟨_, rfl⟩, policy, hp, _, hr, _, _, n, hn, _, hc, _, ⟨_, rfl⟩, h⟩ := h
  cases h
  rw [GovernorState.eq_committed_of_commitment hn] at hc
  exact ⟨⟨rfl, rfl, .reserve hp (by omega) (by omega), fun _ h => (mem_insert _).2 (.inr h)⟩,
    rfl, rfl⟩

theorem transition_move (h : g.transition r expected next = .ok g') : g.Moves g' := by
  simp only [transition, bind_eq_ok, refuseIf_eq_ok, EmbeddedResult.lift_eq_ok,
    lock_eq_ok] at h
  obtain ⟨_, ⟨_, rfl⟩, _, _, _, _, h⟩ := h
  cases h
  exact ⟨rfl, rfl, .phase .., fun _ h => mem_adjust.2 h⟩

theorem markRetiring_move (h : g.markRetiring r = .ok g') : g.Moves g' := by
  simp only [markRetiring, bind_eq_ok, refuseIf_eq_ok, EmbeddedResult.lift_eq_ok,
    lock_eq_ok] at h
  obtain ⟨_, ⟨_, rfl⟩, _, _, _, _, h⟩ := h
  cases h
  exact ⟨rfl, rfl, .phase .., fun _ h => mem_adjust.2 h⟩

theorem beginExecution_ok (h : g.beginExecution r = .ok (g', p)) : g.Moves g' ∧ p.id = r.id := by
  simp only [beginExecution, bind_eq_ok, refuseIf_eq_ok, EmbeddedResult.lift_eq_ok,
    lock_eq_ok] at h
  obtain ⟨_, ⟨_, rfl⟩, _, _, _, _, _, _, _, _, _, _, h⟩ := h
  cases h
  exact ⟨⟨rfl, rfl, .phase .., fun _ h => mem_adjust.2 h⟩, rfl⟩

theorem dropPermit_move (h : g.dropPermit p = .ok g') : g.Moves g' := by
  simp only [dropPermit, bind_eq_ok] at h
  obtain ⟨_, _, h⟩ := h
  cases h
  exact ⟨rfl, rfl, .phase .., fun _ h => mem_adjust.2 h⟩

end PoolGovernor

/-! ## The invariant -/

namespace GovernorState

/-- Policies are accepted ones, memberships and allocations resolve, every group is within its
resident limit and the books are solvent. -/
structure Inv (s : GovernorState) (parent : ParentConfig) : Prop where
  group_valid : ∀ {g p}, s.groups.lookup g = some p →
    p.capacity.Valid parent.toEmbeddedRuntimeConfig
  capacity_valid : ∀ {c p}, s.capacities.lookup c = some p → p.Valid parent.toEmbeddedRuntimeConfig
  member : ∀ {g c}, s.memberships.lookup g = some c → g ∈ s.groups ∧ c ∈ s.capacities
  allocation : ∀ {i a}, s.allocations.lookup i = some a → a.group ∈ s.groups ∧ i ≤ s.sequence
  group_resident : ∀ {g p}, s.groups.lookup g = some p →
    (s.groupUsage g).resident ≤ p.maxResidentVms
  solvent : s.ledger.Solvent parent.maxResidentVms

variable {s s' : GovernorState} {parent : ParentConfig} {group id : String}

theorem Inv.empty : Inv .empty parent where
  group_valid h := by cases h
  capacity_valid h := by cases h
  member h := by cases h
  allocation h := by cases h
  group_resident h := by cases h
  solvent := Nat.zero_le _

namespace Inv
variable (H : s.Inv parent)
include H

theorem notMem_memberships (h : group ∉ s.groups) : group ∉ s.memberships := by
  intro hm
  obtain ⟨c, hc⟩ := mem_iff_lookup.1 hm
  exact h (H.member hc).1

theorem group_ne (h : group ∉ s.groups) (ha : s.allocations.lookup i = some a) : a.group ≠ group :=
  fun e => h (e ▸ (H.allocation ha).1)

theorem groupUsage_eq_zero (h : group ∉ s.groups) : (s.groupUsage group).resident = 0 := by
  rw [groupUsage_resident, countBy_eq_zero]
  exact fun i a ha => decide_eq_false (H.group_ne h ha)

theorem capacityUsage_eq_zero (h : id ∉ s.capacities) : (s.capacityUsage id).resident = 0 := by
  rw [capacityUsage_resident, countBy_eq_zero]
  exact fun i a _ => decide_eq_false fun hm => h (H.member hm).2

theorem owner_mem (h : g ∈ s.groups) : s.ownerOf g ∈ s.ledger.owners := by
  cases ho : s.ownerOf g with
  | inl g' =>
    obtain ⟨hm, rfl⟩ := ownerOf_eq_inl.1 ho
    exact inl_mem_owners.2 ⟨h, hm⟩
  | inr c => exact inr_mem_owners.2 (H.member (ownerOf_eq_inr.1 ho)).2

theorem sum_usage : ∑ o ∈ s.ledger.owners, s.ledger.usage o = s.allocations.size :=
  sum_countBy_owner (fun a : Allocation => s.ownerOf a.group) fun _ he =>
    H.owner_mem (H.allocation (mem_entries_iff.1 he)).1

theorem committed_le : s.committed none ≤ parent.maxResidentVms := by
  rw [committed_eq_ledger]
  exact H.solvent

theorem commitment_none : s.commitment none = .ok (s.committed none) :=
  commitment_of_lt (H.committed_le.trans_lt parent.maxResidentVms_lt)

theorem commitment_some : s.commitment (some group) = .ok (s.committed (some group)) := by
  refine commitment_of_lt (lt_of_le_of_lt ?_ parent.maxResidentVms_lt)
  refine le_trans ?_ H.committed_le
  rw [committed_eq_ledger, committed_eq_ledger]
  exact committed_some_le _

theorem resident_le : s.allocations.size ≤ parent.maxResidentVms := by
  rw [← H.sum_usage]
  exact sum_usage_le_committed.trans H.solvent

omit H in
/-- The subtraction in a revision takes out what the total contains. -/
theorem charge_le_committed (h : s.capacities.lookup id = some c) :
    max (s.capacityUsage id).resident c.minResidentVms ≤ s.committed none := by
  rw [committed_eq_ledger, ← usageOf_inr, ← guaranteeOf_inr h]
  exact GuaranteeLedger.charge_le_committed (inr_mem_owners.2 (mem_of_lookup h))

/-- A group whose owner is below its promise passes the parent's test. -/
theorem committed_some_lt (hg : group ∈ s.groups)
    (h : s.usageOf (s.ownerOf group) < s.guaranteeOf (s.ownerOf group)) :
    s.committed (some group) < parent.maxResidentVms := by
  rw [committed_eq_ledger]
  exact H.solvent.redeemable (H.owner_mem hg) h

/-! ### Solvency of each write -/

theorem solvent_registerMember (h : group ∉ s.groups) :
    Solvent (ledger { s with
      groups := s.groups.insert group policy
      memberships := s.memberships.insert group id }) parent.maxResidentVms := by
  refine H.solvent.of_agrees ⟨?_, ?_, ?_⟩
  · ext (g | c)
    · simp only [inl_mem_owners, mem_insert]
      grind
    · simp only [inr_mem_owners]
  · rintro (g | c) hi
    · have hg : g ≠ group := fun e => (inl_mem_owners.1 hi).2 ((mem_insert _).2 (.inl e))
      simp only [ledger, guaranteeOf, lookup_insert_ne hg]
    · rfl
  · intro i _
    simp only [ledger_usage, usageOf]
    refine countBy_congr fun k a ha => ?_
    rw [decide_eq_decide]
    simp only [ownerOf, lookup_insert_ne (H.group_ne h ha)]

theorem solvent_registerIndependent (h : group ∉ s.groups)
    (hmin : policy.minResidentVms ≤ parent.maxResidentVms - s.committed none) :
    Solvent (ledger { s with groups := s.groups.insert group policy })
      parent.maxResidentVms := by
  have hm := H.notMem_memberships h
  have hu : s.ledger.usage (.inl group) = 0 := by rw [ledger_usage, usageOf_inl hm, H.groupUsage_eq_zero h]
  rw [committed_eq_ledger] at hmin
  refine (H.solvent.enroll ?_ hu hmin).of_agrees ⟨?_, ?_, fun _ _ => rfl⟩
  · exact fun hi => h (inl_mem_owners.1 hi).1
  · ext (g | c)
    · simp only [enroll, Finset.mem_insert, inl_mem_owners, mem_insert]
      grind
    · simp only [enroll, Finset.mem_insert, inr_mem_owners]
      grind
  · rintro (g | c) _
    · simp only [ledger, guaranteeOf, enroll, update_apply,
        lookup_insert_eq]
      grind
    · rfl

theorem solvent_unregisterGroup (h : (s.groupUsage group).resident = 0) :
    Solvent (ledger { s with
      groups := s.groups.erase group
      memberships := s.memberships.erase group }) parent.maxResidentVms := by
  rw [groupUsage_resident, countBy_eq_zero] at h
  refine (H.solvent.dismiss (i := .inl group)).of_agrees ⟨?_, ?_, ?_⟩
  · ext (g | c)
    · simp only [dismiss, Finset.mem_erase, inl_mem_owners, mem_erase]
      grind
    · simp only [dismiss, Finset.mem_erase, inr_mem_owners]
      grind
  · rintro (g | c) hi
    · have hg : g ≠ group := (mem_erase.1 (inl_mem_owners.1 hi).1).1
      simp only [ledger, guaranteeOf, dismiss, lookup_erase_ne hg]
    · rfl
  · intro i _
    simp only [ledger_usage, usageOf, dismiss]
    refine countBy_congr fun k a ha => ?_
    have hg : a.group ≠ group := of_decide_eq_false (h k a ha)
    rw [decide_eq_decide]
    simp only [ownerOf, lookup_erase_ne hg]

theorem solvent_registerCapacity (h : id ∉ s.capacities)
    (hmin : config.minResidentVms ≤ parent.maxResidentVms - s.committed none) :
    Solvent (ledger { s with capacities := s.capacities.insert id config })
      parent.maxResidentVms := by
  have hu : s.ledger.usage (.inr id) = 0 := by rw [ledger_usage, usageOf_inr, H.capacityUsage_eq_zero h]
  rw [committed_eq_ledger] at hmin
  refine (H.solvent.enroll ?_ hu hmin).of_agrees ⟨?_, ?_, fun _ _ => rfl⟩
  · exact fun hi => h (inr_mem_owners.1 hi)
  · ext (g | c)
    · simp only [enroll, Finset.mem_insert, inl_mem_owners]
      grind
    · simp only [enroll, Finset.mem_insert, inr_mem_owners, mem_insert]
      grind
  · rintro (g | c) _
    · rfl
    · simp only [ledger, guaranteeOf, enroll, update_apply,
        lookup_insert_eq]
      grind

theorem solvent_unregisterCapacity :
    Solvent (ledger { s with capacities := s.capacities.erase id })
      parent.maxResidentVms := by
  refine (H.solvent.dismiss (i := .inr id)).of_agrees ⟨?_, ?_, fun _ _ => rfl⟩
  · ext (g | c)
    · simp only [dismiss, Finset.mem_erase, inl_mem_owners]
      grind
    · simp only [dismiss, Finset.mem_erase, inr_mem_owners, mem_erase]
      grind
  · rintro (g | c) hi
    · rfl
    · have hc : c ≠ id := (mem_erase.1 (inr_mem_owners.1 hi)).1
      simp only [ledger, guaranteeOf, dismiss, lookup_erase_ne hc]

omit H in
theorem solvent_reviseCapacity (h : s.capacities.lookup id = some previous)
    (hc : s.committed none - max (s.capacityUsage id).resident previous.minResidentVms +
      max (s.capacityUsage id).resident config.minResidentVms ≤ parent.maxResidentVms) :
    Solvent (ledger { s with capacities := s.capacities.insert id config })
      parent.maxResidentVms := by
  have hid := mem_of_lookup h
  rw [committed_eq_ledger, ← usageOf_inr, ← guaranteeOf_inr h] at hc
  refine (Solvent.revise (L := s.ledger) (inr_mem_owners.2 hid) hc).of_agrees
    ⟨?_, ?_, fun _ _ => rfl⟩
  · ext (g | c)
    · simp only [revise, inl_mem_owners]
    · simp only [revise, inr_mem_owners, mem_insert]
      grind
  · rintro (g | c) _
    · rfl
    · simp only [ledger, guaranteeOf, revise, update_apply,
        lookup_insert_eq]
      grind

theorem fresh : s.sequence + 1 ∉ s.allocations := by
  intro h
  obtain ⟨a, ha⟩ := mem_iff_lookup.1 h
  have := (H.allocation ha).2
  omega

theorem solvent_reserve (hp : s.groups.lookup group = some policy)
    (hc : s.committed (some group) < parent.maxResidentVms) :
    Solvent (ledger { s with
      sequence := s.sequence + 1
      allocations := s.allocations.insert (s.sequence + 1) ⟨group, .creating⟩ })
      parent.maxResidentVms := by
  rw [committed_eq_ledger] at hc
  refine (H.solvent.acquire (H.owner_mem (mem_of_lookup hp)) hc).of_agrees
    ⟨rfl, fun _ _ => rfl, fun o _ => ?_⟩
  simp only [ledger, usageOf, acquire, update_apply, ownerOf,
    countBy_insert_of_notMem H.fresh]
  split <;> split <;> grind

theorem solvent_phase {next : VmAllocationState} :
    Solvent (ledger { s with
      allocations := s.allocations.adjust i ({ · with phase := next }) })
      parent.maxResidentVms := by
  refine H.solvent.of_agrees ⟨rfl, fun _ _ => rfl, fun o _ => ?_⟩
  simp only [ledger_usage, usageOf, ownerOf]
  exact countBy_adjust_eq fun _ => rfl

theorem solvent_release :
    Solvent (ledger { s with allocations := s.allocations.erase i })
      parent.maxResidentVms := by
  cases hi : s.allocations.lookup i with
  | none =>
    rw [erase_of_notMem (lookup_eq_none.1 hi)]
    exact H.solvent
  | some a =>
    refine (H.solvent.release (i := s.ownerOf a.group)).of_agrees
      ⟨rfl, fun _ _ => rfl, fun o _ => ?_⟩
    simp only [ledger, usageOf, release, update_apply, ownerOf,
      countBy_of_lookup hi, decide_eq_true_eq]
    split <;> split <;> grind

/-! ### Preservation -/

/-- Inserting a group that was not there leaves the policies of the others. -/
theorem group_insert (hv : policy.capacity.Valid parent.1) (hg : group ∉ s.groups)
    (h : (s.groups.insert group policy).lookup g = some p) :
    p.capacity.Valid parent.1 ∧ (s.groupUsage g).resident ≤ p.maxResidentVms := by
  rcases lookup_of_insert h with ⟨e, rfl⟩ | ⟨-, h⟩
  · rw [e, H.groupUsage_eq_zero hg]
    exact ⟨hv, Nat.zero_le _⟩
  · exact ⟨H.group_valid h, H.group_resident h⟩

theorem capacity_insert (hv : config.Valid parent.1) (h : (s.capacities.insert id config).lookup c = some p) :
    p.Valid parent.1 := by
  rcases lookup_of_insert h with ⟨-, rfl⟩ | ⟨-, h⟩
  · exact hv
  · exact H.capacity_valid h

theorem move (h : s.Move parent s') : s'.Inv parent := by
  cases h with
  | @registerMember group id policy owner hv hg ho hr =>
    refine ⟨fun h => (H.group_insert hv hg h).1, H.capacity_valid, fun {g c} h => ?_,
      fun h => ⟨(mem_insert _).2 (.inr (H.allocation h).1), (H.allocation h).2⟩,
      fun h => (H.group_insert hv hg h).2, H.solvent_registerMember hg⟩
    simp only [lookup_insert_eq] at h
    simp only [mem_insert]
    split at h
    · next e =>
      cases h
      exact ⟨.inl e, mem_of_lookup ho⟩
    · exact ⟨.inr (H.member h).1, (H.member h).2⟩
  | registerIndependent hv hg hmin =>
    exact ⟨fun h => (H.group_insert hv hg h).1, H.capacity_valid,
      fun h => ⟨(mem_insert _).2 (.inr (H.member h).1), (H.member h).2⟩,
      fun h => ⟨(mem_insert _).2 (.inr (H.allocation h).1), (H.allocation h).2⟩,
      fun h => (H.group_insert hv hg h).2, H.solvent_registerIndependent hg hmin⟩
  | @unregisterGroup group hr =>
    have hz := hr
    rw [groupUsage_resident, countBy_eq_zero] at hz
    have hl : ∀ {g p}, (s.groups.erase group).lookup g = some p → s.groups.lookup g = some p := by
      intro g p h
      exact (lookup_of_erase h).2
    refine ⟨fun h => H.group_valid (hl h), H.capacity_valid, fun {g c} h => ?_, fun {i a} h => ?_,
      fun h => H.group_resident (hl h), H.solvent_unregisterGroup hr⟩
    · rw [lookup_erase_eq] at h
      split at h
      · cases h
      · next hne => exact ⟨mem_erase.2 ⟨hne, (H.member h).1⟩, (H.member h).2⟩
    · have hne : a.group ≠ group := of_decide_eq_false (hz i a h)
      exact ⟨mem_erase.2 ⟨hne, (H.allocation h).1⟩, (H.allocation h).2⟩
  | registerCapacity hv hid hmin =>
    exact ⟨H.group_valid, H.capacity_insert hv,
      fun h => ⟨(H.member h).1, (mem_insert _).2 (.inr (H.member h).2)⟩, H.allocation,
      H.group_resident, H.solvent_registerCapacity hid hmin⟩
  | @unregisterCapacity id hm =>
    refine ⟨H.group_valid, fun {c p} h => ?_, fun {g c} h => ⟨(H.member h).1, ?_⟩, H.allocation,
      H.group_resident, H.solvent_unregisterCapacity⟩
    · exact H.capacity_valid (lookup_of_erase h).2
    · refine mem_erase.2 ⟨fun e => hm ?_, (H.member h).2⟩
      exact mem_values_iff.2 ⟨g, e ▸ h⟩
  | reviseCapacity hv hp hc =>
    exact ⟨H.group_valid, H.capacity_insert hv,
      fun h => ⟨(H.member h).1, (mem_insert _).2 (.inr (H.member h).2)⟩, H.allocation,
      H.group_resident, solvent_reviseCapacity hp hc⟩
  | @reserve group policy hp hr hc =>
    refine ⟨H.group_valid, H.capacity_valid, H.member, fun {i a} h => ?_, fun {g p} h => ?_,
      H.solvent_reserve hp hc⟩
    · rcases lookup_of_insert h with ⟨e, rfl⟩ | ⟨-, h⟩
      · exact ⟨mem_of_lookup hp, e.le⟩
      · exact ⟨(H.allocation h).1, (H.allocation h).2.trans (Nat.le_succ _)⟩
    · have hg := H.group_resident h
      simp only [groupUsage_resident, countBy_insert_of_notMem H.fresh,
        decide_eq_true_eq] at hg hr ⊢
      split
      · next e =>
        subst e
        obtain rfl : p = policy := Option.some.inj (h.symm.trans hp)
        omega
      · exact hg
  | phase i next =>
    refine ⟨H.group_valid, H.capacity_valid, H.member, fun {j a} h => ?_, fun {g p} h => ?_,
      H.solvent_phase⟩
    · simp only [lookup_adjust_eq] at h
      split at h
      · obtain ⟨b, hb, rfl⟩ := Option.map_eq_some_iff.1 h
        exact ⟨(H.allocation hb).1, (H.allocation hb).2⟩
      · exact H.allocation h
    · have hg := H.group_resident h
      rw [groupUsage_resident] at hg ⊢
      refine le_of_eq_of_le ?_ hg
      exact countBy_adjust_eq fun _ => rfl
  | release i =>
    refine ⟨H.group_valid, H.capacity_valid, H.member, fun {j a} h => ?_, fun {g p} h => ?_,
      H.solvent_release⟩
    · exact H.allocation (lookup_of_erase h).2
    · have hg := H.group_resident h
      rw [groupUsage_resident] at hg ⊢
      exact countBy_erase_le.trans hg

end Inv

end GovernorState

end LuaSkills.Embedded
