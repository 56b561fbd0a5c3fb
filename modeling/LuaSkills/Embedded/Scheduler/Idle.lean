import LuaSkills.Embedded.Scheduler.Select

/-!
# Idle instances

Expiry and pressure mark idle instances for retirement. Both mark a list of instances that is chosen
first, so an idle count falls by the number of chosen instances that it counted. From this come the
floors that expiry and eviction leave, in one call and in any sequence of calls.
-/

namespace AList

open List
variable {K V : Type*} [DecidableEq K] {m : AssocMap K V} {ids : List K} {f : K → V → V} {q : V → Bool}

omit [DecidableEq K] in
theorem countBy_mapValues :
    (m.mapValues f).countBy q = m.entries.countP fun e => q (f e.1 e.2) := countP_map

theorem countP_mem_keys (hnodup : ids.Nodup) (hids : ∀ id ∈ ids, ∃ v, m.lookup id = some v ∧ q v = true) :
    m.entries.countP (fun e => e.1 ∈ ids && q e.2) = ids.length := by
  rw [countP_eq_length_filter, ← length_map fun e : Sigma fun _ : K => V => e.1]
  refine ((perm_ext_iff_of_nodup ?_ hnodup).2 ?_).length_eq
  · exact (m.nodupKeys.sublist filter_sublist : (filter _ _).NodupKeys)
  · intro id
    simp only [mem_map, mem_filter, Bool.and_eq_true, decide_eq_true_eq]
    constructor
    · rintro ⟨e, ⟨-, he, -⟩, rfl⟩
      exact he
    · intro hid
      obtain ⟨v, hv, hq⟩ := hids id hid
      exact ⟨⟨id, v⟩, ⟨mem_entries_iff.2 hv, hid, hq⟩, rfl⟩

/-- Values that pass a test are replaced by values that do not. -/
theorem countBy_mapValues_mem (hnodup : ids.Nodup)
    (hids : ∀ id ∈ ids, ∃ v, m.lookup id = some v ∧ q v = true) (g : V → V) (hg : ∀ v, q (g v) = false) :
    (m.mapValues fun id v => if id ∈ ids then g v else v).countBy q + ids.length = m.countBy q := by
  rw [countBy_mapValues, ← countP_mem_keys hnodup hids, countBy,
    countP_eq_countP_filter_add m.entries (fun e => q e.2) (fun e => e.1 ∈ ids), Nat.add_comm,
    countP_filter, countP_filter]
  congr 1
  · refine countP_congr fun e _ => ?_
    simp [and_comm]
  · refine countP_congr fun e _ => ?_
    by_cases he : e.1 ∈ ids <;> simp [he, hg]

end AList

namespace LuaSkills.Embedded.Scheduler

namespace SchedulerState
variable {s s' : SchedulerState} {p : String → ScheduledReusable → Bool} {n : ℕ} {id poolId : String}
  {pool : ScheduledPool} {elapsed : String → Bool}

/-! ## Marks -/

def chosen (s : SchedulerState) (p : String → ScheduledReusable → Bool) (n : ℕ) : List String :=
  ((s.reusableInstances.entries.filter fun e => p e.1 e.2).take n).map (·.1)

theorem markClosing_eq : s.markClosing p n = { s with
    reusableInstances := s.reusableInstances.mapValues fun id r =>
      if id ∈ s.chosen p n then { r with closing := true } else r } := rfl

theorem chosen_nodup : (s.chosen p n).Nodup := by
  have hsublist := (List.take_sublist n (s.reusableInstances.entries.filter fun e => p e.1 e.2)).trans
    List.filter_sublist
  exact (s.reusableInstances.nodupKeys.sublist hsublist : (List.take _ _).NodupKeys)

theorem mem_chosen (h : id ∈ s.chosen p n) :
    ∃ r, s.reusableInstances.lookup id = some r ∧ p id r = true := by
  obtain ⟨e, he, rfl⟩ := List.mem_map.1 h
  obtain ⟨hmem, hp⟩ := List.mem_filter.1 (List.mem_of_mem_take he)
  exact ⟨e.2, AList.mem_entries_iff.1 hmem, hp⟩

theorem length_chosen :
    (s.chosen p n).length = min n (s.reusableInstances.entries.countP fun e => p e.1 e.2) := by
  rw [chosen, List.length_map, List.length_take, List.countP_eq_length_filter]

/-- A count of idle instances falls by the marked ones that it counted. -/
theorem countBy_markClosing (hq : ∀ r : ScheduledReusable, q { r with closing := true } = false)
    (hp : ∀ id r, p id r = true → q r = true) :
    (s.markClosing p n).reusableInstances.countBy q + (s.chosen p n).length =
      s.reusableInstances.countBy q := by
  refine AList.countBy_mapValues_mem chosen_nodup ?_ _ hq
  intro id hid
  obtain ⟨r, hr, hpr⟩ := mem_chosen hid
  exact ⟨r, hr, hp id r hpr⟩

/-- A count that the marked instances are not in stays. -/
theorem countBy_markClosing_of_not (hq : ∀ r : ScheduledReusable, q { r with closing := true } = false)
    (hp : ∀ id r, p id r = true → q r = false) :
    (s.markClosing p n).reusableInstances.countBy q = s.reusableInstances.countBy q := by
  rw [markClosing_eq]
  refine AList.countBy_mapValues.trans (List.countP_congr fun e he => ?_)
  split
  next hid =>
    obtain ⟨r, hr, hpr⟩ := mem_chosen hid
    rw [AList.mem_entries_iff.1 he] at hr
    cases hr
    rw [hq, hp _ _ hpr]
  next => rfl

/-! ## Idle counts -/

theorem idle_iff {r : ScheduledReusable} :
    r.idle = true ↔ r.closing = false ∧ r.active = none ∧ r.lease.isSome := by
  simp [ScheduledReusable.idle, and_assoc]

theorem idle_closing {r : ScheduledReusable} : ({ r with closing := true } : ScheduledReusable).idle = false :=
  rfl

/-- The idle instances of a pool that a mark takes away. -/
theorem poolIdle_markClosing (hp : ∀ id r, p id r = true → r.poolId = poolId ∧ r.idle = true) :
    (s.markClosing p n).poolIdle poolId + (s.chosen p n).length = s.poolIdle poolId := by
  refine countBy_markClosing (fun r => Bool.and_false _) fun id r h => ?_
  obtain ⟨hpool, hidle⟩ := hp id r h
  simp [hpool, hidle]

theorem poolIdle_markClosing_of_ne (hp : ∀ id r, p id r = true → r.poolId = poolId) (hne : other ≠ poolId) :
    (s.markClosing p n).poolIdle other = s.poolIdle other := by
  refine countBy_markClosing_of_not (fun r => Bool.and_false _) fun id r h => ?_
  have hother : r.poolId ≠ other := fun heq => hne (heq.symm.trans (hp id r h))
  simp [hother]

/-- The idle instances of the capacity of that pool fall as well. -/
theorem capacityIdle_markClosing (hpool : s.pools.lookup poolId = some pool)
    (hp : ∀ id r, p id r = true → r.poolId = poolId ∧ r.idle = true) (hc : pool.capacityId = some c) :
    (s.markClosing p n).capacityIdle c + (s.chosen p n).length = s.capacityIdle c := by
  refine countBy_markClosing (fun r => ?_) fun id r h => ?_
  · rw [idle_closing, Bool.false_and]
  · obtain ⟨rfl, hidle⟩ := hp id r h
    have hlookup : (s.markClosing p n).pools.lookup r.poolId = some pool := hpool
    simp [hidle, hlookup, hc]

theorem capacityIdle_markClosing_of_ne (hpool : s.pools.lookup poolId = some pool)
    (hp : ∀ id r, p id r = true → r.poolId = poolId ∧ r.idle = true) (hc : pool.capacityId ≠ some c) :
    (s.markClosing p n).capacityIdle c = s.capacityIdle c := by
  refine countBy_markClosing_of_not (fun r => ?_) fun id r h => ?_
  · rw [idle_closing, Bool.false_and]
  · obtain ⟨rfl, -⟩ := hp id r h
    have hlookup : (s.markClosing p n).pools.lookup r.poolId = some pool := hpool
    simp [hlookup, hc]

/-! ## Expiry -/

/-- An idle instance of a pool whose age reached the time the pool allows. -/
def Expirable (elapsed : String → Bool) (poolId : String) (pool : ScheduledPool) (id : String)
    (r : ScheduledReusable) : Prop :=
  r.poolId = poolId ∧ r.closing = false ∧ r.active = none ∧ r.lease.isSome ∧ elapsed id = true ∧
    pool.pool.policy.idleTtlMs.isSome

/-- What `expire` does with the instances `marked`: they may go, the two floors stay, and an instance
that may go stays only at a floor. -/
structure Expires (s : SchedulerState) (elapsed : String → Bool) (poolId : String)
    (pool : ScheduledPool) (marked : List String) (s' : SchedulerState) : Prop where
  state : s' = { s with reusableInstances := s.reusableInstances.mapValues fun id r =>
    if id ∈ marked then { r with closing := true } else r }
  eligible : ∀ id ∈ marked, ∃ r, s.reusableInstances.lookup id = some r ∧
    Expirable elapsed poolId pool id r
  poolFloor : min (s.poolIdle poolId) pool.pool.policy.minResidentVms ≤ s'.poolIdle poolId
  capacityFloor : ∀ c capacity, pool.capacityId = some c → s.capacities.lookup c = some capacity →
    min (s.capacityIdle c) capacity.config.resources.minResidentVms ≤ s'.capacityIdle c
  exhaustive : (∀ id r, s.reusableInstances.lookup id = some r → Expirable elapsed poolId pool id r →
      id ∈ marked) ∨ s'.poolIdle poolId ≤ pool.pool.policy.minResidentVms ∨
    ∃ c capacity, pool.capacityId = some c ∧ s.capacities.lookup c = some capacity ∧
      s'.capacityIdle c ≤ capacity.config.resources.minResidentVms
  otherPools : ∀ other, other ≠ poolId → s'.poolIdle other = s.poolIdle other
  otherCapacities : ∀ c, pool.capacityId ≠ some c → s'.capacityIdle c = s.capacityIdle c

/-- The test by which `expire` finds an instance. -/
def expirable (elapsed : String → Bool) (poolId : String) (id : String) (r : ScheduledReusable) : Bool :=
  r.poolId = poolId && r.idle && elapsed id

theorem expirable_iff : expirable elapsed poolId id r = true ↔
    r.poolId = poolId ∧ (r.closing = false ∧ r.active = none ∧ r.lease.isSome) ∧ elapsed id = true := by
  rw [← idle_iff]
  simp [expirable, and_assoc]

/-- Marks that were not cut off took every instance that passes the test. -/
theorem mem_chosen_of_length_lt (h : (s.chosen p n).length < n)
    (hr : s.reusableInstances.lookup id = some r) (hp : p id r = true) : id ∈ s.chosen p n := by
  have hall : (s.reusableInstances.entries.filter fun e => p e.1 e.2).length ≤ n := by
    rw [chosen, List.length_map, List.length_take] at h
    omega
  rw [chosen, List.take_of_length_le hall]
  exact List.mem_map.2 ⟨⟨id, r⟩, List.mem_filter.2 ⟨AList.mem_entries_iff.2 hr, hp⟩, rfl⟩

theorem length_chosen_le : (s.chosen p n).length ≤ n := by
  rw [length_chosen]
  exact Nat.min_le_left _ _

theorem markClosing_expires (hpool : s.pools.lookup poolId = some pool)
    (httl : pool.pool.policy.idleTtlMs.isSome) (hn : s.removable poolId pool = some n) :
    Expires s elapsed poolId pool (s.chosen (expirable elapsed poolId) n)
      (s.markClosing (expirable elapsed poolId) n) := by
  have hp : ∀ id r, expirable elapsed poolId id r = true → r.poolId = poolId ∧ r.idle = true := by
    intro id r h
    obtain ⟨hr, hidle, -⟩ := expirable_iff.1 h
    exact ⟨hr, idle_iff.2 hidle⟩
  have hpoolIdle := poolIdle_markClosing (s := s) (n := n) hp
  have hcapacityIdle := fun c => capacityIdle_markClosing (n := n) hpool hp (c := c)
  have hmarked : (s.chosen (expirable elapsed poolId) n).length ≤ n := length_chosen_le
  -- The surplus is the smaller of the two, or the one there is.
  have hsurplus : n = s.poolIdle poolId - pool.pool.policy.minResidentVms ∧ pool.capacityId = none ∨
      ∃ c capacity, pool.capacityId = some c ∧ s.capacities.lookup c = some capacity ∧
        n = min (s.poolIdle poolId - pool.pool.policy.minResidentVms)
          (s.capacityIdle c - capacity.config.resources.minResidentVms) := by
    unfold removable at hn
    cases hc : pool.capacityId with
    | none =>
      rw [hc] at hn
      cases hn
      exact .inl ⟨rfl, rfl⟩
    | some c =>
      rw [hc] at hn
      obtain ⟨capacity, hcapacity, hn⟩ := Option.bind_eq_some_iff.1 hn
      cases hn
      exact .inr ⟨c, capacity, rfl, hcapacity, rfl⟩
  exact {
    state := rfl
    eligible := by
      intro id hid
      obtain ⟨r, hr, h⟩ := mem_chosen hid
      obtain ⟨hpoolId, ⟨hclosing, hactive, hlease⟩, helapsed⟩ := expirable_iff.1 h
      exact ⟨r, hr, hpoolId, hclosing, hactive, hlease, helapsed, httl⟩
    poolFloor := by
      rcases hsurplus with ⟨hn, -⟩ | ⟨c, capacity, -, -, hn⟩ <;> omega
    capacityFloor := by
      intro c capacity hc hcapacity
      have hcapacityIdle := hcapacityIdle c hc
      rcases hsurplus with ⟨-, hnone⟩ | ⟨c', capacity', hc', hcapacity', hn⟩
      · rw [hnone] at hc
        cases hc
      · rw [hc] at hc'
        cases hc'
        rw [hcapacity] at hcapacity'
        cases hcapacity'
        omega
    exhaustive := by
      by_cases hlt : (s.chosen (expirable elapsed poolId) n).length < n
      · refine .inl ?_
        rintro id r hr ⟨hpoolId, hclosing, hactive, hlease, helapsed, -⟩
        exact mem_chosen_of_length_lt hlt hr
          (expirable_iff.2 ⟨hpoolId, ⟨hclosing, hactive, hlease⟩, helapsed⟩)
      · refine .inr ?_
        rcases hsurplus with ⟨hn, -⟩ | ⟨c, capacity, hc, hcapacity, hn⟩
        · exact .inl (by omega)
        · have hcapacityIdle := hcapacityIdle c hc
          rcases Nat.le_total (s.poolIdle poolId - pool.pool.policy.minResidentVms)
            (s.capacityIdle c - capacity.config.resources.minResidentVms) with hle | hle
          · exact .inl (by omega)
          · exact .inr ⟨c, capacity, hc, hcapacity, by omega⟩
    otherPools := fun other => poolIdle_markClosing_of_ne fun id r h => (hp id r h).1
    otherCapacities := fun c => capacityIdle_markClosing_of_ne hpool hp }

/-- A pool without a time to live keeps its instances. -/
theorem expires_refl (httl : pool.pool.policy.idleTtlMs.isNone) :
    Expires s elapsed poolId pool [] s where
  state := by
    have hsame : s.reusableInstances.mapValues (fun id r =>
        if id ∈ ([] : List String) then { r with closing := true } else r) = s.reusableInstances :=
      AList.ext (List.map_id _)
    rw [hsame]
  eligible := nofun
  poolFloor := Nat.min_le_left _ _
  capacityFloor := fun _ _ _ _ => Nat.min_le_left _ _
  exhaustive := by
    refine .inl ?_
    rintro id r - ⟨-, -, -, -, -, hsome⟩
    rw [Option.isNone_iff_eq_none] at httl
    rw [httl] at hsome
    cases hsome
  otherPools := fun _ _ => rfl
  otherCapacities := fun _ _ => rfl

theorem expire_expires (h : s.expire elapsed poolId = some s') :
    ∃ pool marked, s.pools.lookup poolId = some pool ∧ Expires s elapsed poolId pool marked s' := by
  obtain ⟨pool, hpool, h⟩ := Option.bind_eq_some_iff.1 h
  split at h
  next httl =>
    cases h
    exact ⟨pool, [], hpool, expires_refl httl⟩
  next httl =>
    obtain ⟨n, hn, h⟩ := Option.bind_eq_some_iff.1 h
    cases h
    refine ⟨pool, _, hpool, markClosing_expires hpool ?_ hn⟩
    cases ht : pool.pool.policy.idleTtlMs with
    | none => simp [ht] at httl
    | some _ => rfl

/-- An unknown pool or capacity is a panic. -/
theorem expire_eq_none (h : s.expire elapsed poolId = none) : poolId ∉ s.pools ∨
    ∃ pool c, s.pools.lookup poolId = some pool ∧ pool.capacityId = some c ∧ c ∉ s.capacities := by
  cases hpool : s.pools.lookup poolId with
  | none => exact .inl (AList.lookup_eq_none.1 hpool)
  | some pool =>
    refine .inr ⟨pool, ?_⟩
    simp only [expire, hpool, Option.bind_eq_bind, Option.bind_some] at h
    split at h
    · cases h
    · rw [Option.bind_eq_none_iff] at h
      cases hc : pool.capacityId with
      | none => exact absurd (h _ (by rw [removable, hc])) (Option.some_ne_none _)
      | some c =>
        refine ⟨c, rfl, rfl, fun hmem => ?_⟩
        obtain ⟨capacity, hcapacity⟩ := AList.mem_iff_lookup.1 hmem
        have hn : s.removable poolId pool =
            some (min (s.poolIdle poolId - pool.pool.policy.minResidentVms)
              (s.capacityIdle c - capacity.config.resources.minResidentVms)) := by
          rw [removable, hc]
          exact Option.bind_eq_some_iff.2 ⟨capacity, hcapacity, rfl⟩
        exact absurd (h _ hn) (Option.some_ne_none _)

/-- Calls of `expire`, one after the other. -/
def expireAll (s : SchedulerState) : List ((String → Bool) × String) → Option SchedulerState
  | [] => some s
  | call :: calls => (s.expire call.1 call.2).bind fun s => expireAll s calls

/-- The floors of every pool and capacity, with the counts `s` had. -/
structure Floors (s s' : SchedulerState) : Prop where
  pools : s'.pools = s.pools
  capacities : s'.capacities = s.capacities
  pool : ∀ poolId pool, s.pools.lookup poolId = some pool →
    min (s.poolIdle poolId) pool.pool.policy.minResidentVms ≤ s'.poolIdle poolId
  capacity : ∀ c capacity, s.capacities.lookup c = some capacity →
    min (s.capacityIdle c) capacity.config.resources.minResidentVms ≤ s'.capacityIdle c

theorem Expires.floors (h : Expires s elapsed poolId pool marked s')
    (hpool : s.pools.lookup poolId = some pool) : Floors s s' where
  pools := by rw [h.state]
  capacities := by rw [h.state]
  pool := by
    intro other pool' hpool'
    by_cases hother : other = poolId
    · subst hother
      rw [hpool] at hpool'
      cases hpool'
      exact h.poolFloor
    · rw [h.otherPools other hother]
      exact Nat.min_le_left _ _
  capacity := by
    intro c capacity hcapacity
    by_cases hc : pool.capacityId = some c
    · exact h.capacityFloor c capacity hc hcapacity
    · rw [h.otherCapacities c hc]
      exact Nat.min_le_left _ _

theorem Floors.trans (h : Floors s s') (h' : Floors s' s'') : Floors s s'' where
  pools := h'.pools.trans h.pools
  capacities := h'.capacities.trans h.capacities
  pool := by
    intro poolId pool hpool
    have h₁ := h.pool poolId pool hpool
    have h₂ := h'.pool poolId pool (by rw [h.pools, hpool])
    omega
  capacity := by
    intro c capacity hcapacity
    have h₁ := h.capacity c capacity hcapacity
    have h₂ := h'.capacity c capacity (by rw [h.capacities, hcapacity])
    omega

theorem expireAll_floors {calls : List ((String → Bool) × String)} (h : s.expireAll calls = some s') :
    Floors s s' := by
  induction calls generalizing s with
  | nil =>
    cases h
    exact ⟨rfl, rfl, fun _ _ _ => Nat.min_le_left _ _, fun _ _ _ => Nat.min_le_left _ _⟩
  | cons call calls ih =>
    obtain ⟨middle, hexpire, h⟩ := Option.bind_eq_some_iff.1 h
    obtain ⟨pool, marked, hpool, hexpires⟩ := expire_expires hexpire
    exact (hexpires.floors hpool).trans (ih h)

/-- Expiry takes what is too old down to two floors, and any number of expiries of any pools leaves
every floor. -/
theorem idle_expiry (s : SchedulerState) :
    (∀ elapsed poolId,
      (s.expire elapsed poolId = none → poolId ∉ s.pools ∨ ∃ pool c,
        s.pools.lookup poolId = some pool ∧ pool.capacityId = some c ∧ c ∉ s.capacities) ∧
      ∀ s', s.expire elapsed poolId = some s' → ∃ pool marked,
        s.pools.lookup poolId = some pool ∧ Expires s elapsed poolId pool marked s') ∧
    ∀ calls s', s.expireAll calls = some s' → Floors s s' :=
  ⟨fun _ _ => ⟨expire_eq_none, fun _ => expire_expires⟩, fun _ _ => expireAll_floors⟩

end SchedulerState

end LuaSkills.Embedded.Scheduler
