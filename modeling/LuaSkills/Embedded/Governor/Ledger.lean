import LuaSkills.Data.GuaranteeLedger
import LuaSkills.Embedded.Governor.State

/-!
# The governor's books

`GovernorState.ledger` reads a `GuaranteeLedger` off the governor's metadata: the owners are the
independent groups and the capacities, an allocation is charged to its group's owner. The checked
loops of `commitment` compute the charge of that ledger (`commitment_of_lt`,
`eq_committed_of_commitment`), and each write to the metadata is one of the ledger's operations.
-/

namespace LuaSkills.Embedded

open AList

/-! ## Counters -/

theorem PoolUsage.foldl_count_resident (l : List Allocation) (u : PoolUsage) :
    (l.foldl PoolUsage.count u).resident = u.resident + l.length := by
  induction l generalizing u with
  | nil => rfl
  | cons a l ih =>
    have : (u.count a).resident = u.resident + 1 := by
      unfold count
      cases a.phase <;> rfl
    rw [List.foldl_cons, ih, this, List.length_cons]
    omega

theorem countAllocations_resident (l : List Allocation) :
    (countAllocations l).resident = l.length := by
  rw [countAllocations, PoolUsage.foldl_count_resident]
  exact Nat.zero_add _

namespace GovernorState
variable {s : GovernorState} {group id : String} {n : ℕ}

theorem groupUsage_resident :
    (s.groupUsage group).resident = s.allocations.countBy fun a => a.group = group := by
  rw [groupUsage, countAllocations_resident, length_filter_values]

theorem capacityUsage_resident :
    (s.capacityUsage id).resident =
      s.allocations.countBy fun a => s.memberships.lookup a.group = some id := by
  rw [capacityUsage, countAllocations_resident, length_filter_values]

/-! ## Owners -/

/-- The owner a group's allocations are charged to: its capacity, or the group itself. -/
def ownerOf (s : GovernorState) (group : String) : String ⊕ String :=
  match s.memberships.lookup group with
  | some id => .inr id
  | none => .inl group

/-- The minimum promised to an owner. -/
def guaranteeOf (s : GovernorState) : String ⊕ String → ℕ
  | .inl group => ((s.groups.lookup group).map PluginPoolConfig.minResidentVms).getD 0
  | .inr id => ((s.capacities.lookup id).map VmCapacityConfig.minResidentVms).getD 0

def usageOf (s : GovernorState) (owner : String ⊕ String) : ℕ :=
  s.allocations.countBy fun a => s.ownerOf a.group = owner

/-- Independent groups and capacities share the parent's resident limit. -/
def ledger (s : GovernorState) : GuaranteeLedger (String ⊕ String) where
  owners := (s.groups.keys.toFinset.filter (· ∉ s.memberships)).disjSum s.capacities.keys.toFinset
  guarantee := s.guaranteeOf
  usage := s.usageOf

@[simp] theorem ledger_usage : s.ledger.usage = s.usageOf := rfl

theorem ownerOf_eq_inl : s.ownerOf g = .inl group ↔ g ∉ s.memberships ∧ g = group := by
  unfold ownerOf
  split
  · next h =>
    simp only [reduceCtorEq, false_iff, not_and]
    exact fun hg => absurd (mem_of_lookup h) hg
  · next h => simp [lookup_eq_none.1 h]

theorem ownerOf_eq_inr : s.ownerOf g = .inr id ↔ s.memberships.lookup g = some id := by
  unfold ownerOf
  split
  · next h => simp [h]
  · next h => simp [h]

theorem inl_mem_owners :
    .inl group ∈ s.ledger.owners ↔ group ∈ s.groups ∧ group ∉ s.memberships := by
  simp [ledger, mem_keys]

theorem inr_mem_owners : .inr id ∈ s.ledger.owners ↔ id ∈ s.capacities := by
  simp [ledger, mem_keys]

theorem usageOf_inl (h : group ∉ s.memberships) :
    s.usageOf (.inl group) = (s.groupUsage group).resident := by
  rw [groupUsage_resident, usageOf]
  refine countBy_congr fun k a _ => ?_
  rw [decide_eq_decide, ownerOf_eq_inl]
  exact ⟨fun h => h.2, fun e => ⟨e ▸ h, e⟩⟩

theorem usageOf_inr : s.usageOf (.inr id) = (s.capacityUsage id).resident := by
  rw [capacityUsage_resident, usageOf]
  refine countBy_congr fun k a _ => ?_
  rw [decide_eq_decide, ownerOf_eq_inr]

theorem guaranteeOf_inl (h : s.groups.lookup group = some p) :
    s.guaranteeOf (.inl group) = p.minResidentVms := by
  simp [guaranteeOf, h]

theorem guaranteeOf_inr (h : s.capacities.lookup id = some c) :
    s.guaranteeOf (.inr id) = c.minResidentVms := by
  simp [guaranteeOf, h]

/-! ## Commitment -/

/-- What an independent group adds to the total; members are charged through their capacity. -/
def groupCharge (s : GovernorState) (requestingGroup : Option String) (group : String)
    (policy : PluginPoolConfig) : ℕ :=
  if group ∈ s.memberships then 0
  else if requestingGroup = some group then (s.groupUsage group).resident
  else max (s.groupUsage group).resident policy.minResidentVms

def capacityCharge (s : GovernorState) (requestingGroup : Option String) (id : String)
    (config : VmCapacityConfig) : ℕ :=
  if requestingGroup.bind (fun group => s.memberships.lookup group) = some id then
    (s.capacityUsage id).resident
  else max (s.capacityUsage id).resident config.minResidentVms

/-- The total the loops of `commitment` add up. -/
def committed (s : GovernorState) (requestingGroup : Option String) : ℕ :=
  s.groups.sumBy (s.groupCharge requestingGroup) +
    s.capacities.sumBy (s.capacityCharge requestingGroup)

theorem committed_none : s.committed none =
    (s.groups.sumBy fun group policy => if group ∈ s.memberships then 0
      else max policy.minResidentVms (s.groupUsage group).resident) +
    s.capacities.sumBy fun id c => max c.minResidentVms (s.capacityUsage id).resident := by
  unfold committed
  congr 1
  · exact sumBy_congr fun g p _ => by simp [groupCharge, max_comm]
  · exact sumBy_congr fun c p _ => by simp [capacityCharge, max_comm]

private theorem addCharge_of_lt (h : c + w < wordBound) : addCharge c w = .ok (c + w) := by
  simp [addCharge, checkedAdd_of_lt h]

private theorem addCharge_eq_ok (h : addCharge c w = .ok n) : n = c + w := by
  simp only [addCharge, okOr_eq_ok, checkedAdd_eq_some] at h
  exact h.2

theorem commitment_of_lt (h : s.committed req < wordBound) : s.commitment req = .ok (s.committed req) := by
  unfold committed at h
  have hg := foldlM_checked (a := 0) (l := s.groups.entries)
    (w := fun e => s.groupCharge req e.1 e.2)
    (f := fun c e => if e.1 ∈ s.memberships then pure c else addCharge c
      (if req = some e.1 then (s.groupUsage e.1).resident
        else max (s.groupUsage e.1).resident e.2.minResidentVms)) ?_ ?_
  · unfold commitment
    rw [hg, Except.ok_bind, Nat.zero_add]
    exact foldlM_checked (l := s.capacities.entries) (w := fun e => s.capacityCharge req e.1 e.2)
      (fun c x hc => addCharge_of_lt hc) h
  · intro c x hc
    unfold groupCharge at hc ⊢
    split
    · rfl
    · next hm => rw [if_neg hm] at hc; exact addCharge_of_lt hc
  · exact lt_of_le_of_lt (Nat.le_of_eq (Nat.zero_add _)) (lt_of_le_of_lt (Nat.le_add_right ..) h)

theorem eq_committed_of_commitment (h : s.commitment req = .ok n) : n = s.committed req := by
  unfold commitment at h
  obtain ⟨a, ha, h⟩ := Except.bind_eq_ok.1 h
  have ha := foldlM_checked_eq_ok (l := s.groups.entries)
    (w := fun e => s.groupCharge req e.1 e.2) (fun c x n hn => ?_) ha
  · have h := foldlM_checked_eq_ok (l := s.capacities.entries)
      (w := fun e => s.capacityCharge req e.1 e.2) (fun c x n hn => ?_) h
    · rw [h, ha, Nat.zero_add]
      rfl
    · exact addCharge_eq_ok hn
  · unfold groupCharge
    split at hn
    · next hm =>
      cases hn
      rw [if_pos hm]
      rfl
    · next hm =>
      rw [if_neg hm]
      exact addCharge_eq_ok hn

/-- The loops compute the ledger's charge, the requester's owner consuming its own promise. -/
theorem committed_eq_ledger (req : Option String) :
    s.committed req = s.ledger.committed (req.map s.ownerOf) := by
  unfold committed GuaranteeLedger.committed
  simp only [ledger, Finset.sum_disjSum, Finset.sum_filter]
  congr 1
  · refine sumBy_eq_sum_keys fun g p hg => ?_
    unfold groupCharge
    by_cases hm : g ∈ s.memberships
    · simp [hm]
    · simp only [hm, if_false, not_false_eq_true, if_true, GuaranteeLedger.charge,
        usageOf_inl hm, guaranteeOf_inl hg]
      congr 1
      rw [Option.map_eq_some_iff]
      simp only [ownerOf_eq_inl, eq_iff_iff]
      refine ⟨fun e => ⟨g, e, hm, rfl⟩, ?_⟩
      rintro ⟨a, e, _, ha⟩
      exact ha ▸ e
  · refine sumBy_eq_sum_keys fun c p hc => ?_
    unfold capacityCharge
    simp only [GuaranteeLedger.charge, usageOf_inr, guaranteeOf_inr hc]
    congr 1
    rw [Option.map_eq_some_iff]
    simp only [ownerOf_eq_inr, Option.bind_eq_some_iff]

end GovernorState

end LuaSkills.Embedded
