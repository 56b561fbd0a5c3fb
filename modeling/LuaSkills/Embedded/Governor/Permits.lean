import LuaSkills.Embedded.Governor.Runs

/-!
# Execution permits

What the clients own and what the governor counts are the same: an allocation lives as long as its
reservation, and it runs as long as a permit borrows that. So the calls that run stay within the limits
that were checked when their permits were given.
-/

namespace LuaSkills.Embedded

open AList List Except
open PoolGovernor (lock_eq_ok)
open EmbeddedResult (lift_eq_ok)

/-- The part of the governor's world that the tokens are about. -/
structure Tokens where
  groups : AssocMap String PluginPoolConfig
  allocations : AssocMap ℕ Allocation
  reservations : List ℕ
  permits : AssocMap ℕ VmAllocationState

namespace Tokens

/-- How many allocations run in the groups that satisfy `p`. -/
def running (allocations : AssocMap ℕ Allocation) (p : String → Bool) : ℕ :=
  allocations.countBy fun a => p a.group && a.phase = .running

inductive Turn (limit : ℕ) (t : Tokens) : Tokens → Prop
  | rest {groups} : (∀ g policy, groups.lookup g = some policy →
      t.groups.lookup g = some policy ∨ ∀ i a, t.allocations.lookup i = some a → a.group ≠ g) →
    Turn limit t { t with groups }
  | reserve (i group) : i ∉ t.allocations → Turn limit t { t with
      allocations := t.allocations.insert i ⟨group, .creating⟩, reservations := i :: t.reservations }
  | phase (i a next) : t.allocations.lookup i = some a → a.phase ≠ .running → next ≠ .running →
    Turn limit t { t with allocations := t.allocations.adjust i ({ · with phase := next }) }
  | execute (i a policy) : t.allocations.lookup i = some a → a.phase = .creating ∨ a.phase = .idle →
    t.groups.lookup a.group = some policy → running t.allocations (· = a.group) < policy.maxRunningCalls →
    running t.allocations (fun _ => true) < limit → Turn limit t { t with
      allocations := t.allocations.adjust i ({ · with phase := .running }), permits := t.permits.insert i a.phase }
  | release (i) : i ∉ t.permits → Turn limit t { t with
      allocations := t.allocations.erase i, reservations := t.reservations.filter (· ≠ i) }
  | restore (i previous) : t.permits.lookup i = some previous → Turn limit t { t with
      allocations := t.allocations.adjust i ({ · with phase := previous }), permits := t.permits.erase i }

structure Sound (limit : ℕ) (t : Tokens) : Prop where
  owned : ∀ i, i ∈ t.reservations ↔ i ∈ t.allocations
  runs : ∀ i, i ∈ t.permits ↔ ∃ a, t.allocations.lookup i = some a ∧ a.phase = .running
  previous : ∀ i phase, t.permits.lookup i = some phase → phase = .creating ∨ phase = .idle
  group : ∀ g policy, t.groups.lookup g = some policy → running t.allocations (· = g) ≤ policy.maxRunningCalls
  parent : running t.allocations (fun _ => true) ≤ limit

variable {t t' : Tokens} {limit i : ℕ} {a : Allocation}

theorem Turn.refl : Turn limit t t := .rest fun _ _ => .inl

theorem running_adjust (p : String → Bool) (next : VmAllocationState) (h : t.allocations.lookup i = some a) :
    running (t.allocations.adjust i ({ · with phase := next })) p +
      (if p a.group && a.phase = .running then 1 else 0) =
    running t.allocations p + if p a.group && next = .running then 1 else 0 :=
  countBy_adjust h

theorem Sound.turn (H : t.Sound limit) (h : Turn limit t t') : t'.Sound limit := by
  cases h with
  | rest hgroups =>
    refine { H with group := fun g p hg => (hgroups g p hg).elim (H.group g p) fun hnew => ?_ }
    refine (Nat.le_of_eq (countBy_eq_zero.2 fun i a ha => ?_)).trans (Nat.zero_le _)
    simp [hnew i a ha]
  | reserve i group hi =>
    have hsame (p : String → Bool) : running (t.allocations.insert i ⟨group, .creating⟩) p = running t.allocations p := by
      simp [running, countBy_insert_of_notMem hi]
    refine ⟨fun j => ?_, fun j => ?_, H.previous, fun g p hg => (hsame _).trans_le (H.group g p hg),
      (hsame _).trans_le H.parent⟩
    · simp [H.owned]
    · have := H.runs j
      simp only [lookup_insert_eq]
      grind [mem_iff_lookup]
  | phase i a next ha hrun hnext =>
    have hsame (p : String → Bool) := running_adjust p next ha
    simp only [hrun, hnext, decide_false, Bool.and_false, Bool.false_eq_true, if_false, Nat.add_zero] at hsame
    refine ⟨fun j => ?_, fun j => ?_, H.previous, fun g p hg => (hsame _).trans_le (H.group g p hg),
      (hsame _).trans_le H.parent⟩
    · rw [H.owned, mem_adjust]
    · have := H.runs j
      simp only [lookup_adjust_eq]
      grind
  | execute i a policy ha hphase hg hgroup hlimit =>
    have hmore (p : String → Bool) := running_adjust p .running ha
    have hrun : a.phase ≠ .running := by rcases hphase with h | h <;> simp [h]
    simp only [hrun, decide_false, Bool.and_false, Bool.false_eq_true, if_false, Nat.add_zero, decide_true,
      Bool.and_true] at hmore
    refine ⟨fun j => ?_, fun j => ?_, fun j phase hj => ?_, fun g p hp => (hmore _).trans_le ?_, (hmore _).trans_le hlimit⟩
    · rw [H.owned, mem_adjust]
    · have := H.runs j
      simp only [lookup_adjust_eq, mem_insert]
      grind
    · rcases lookup_of_insert hj with ⟨rfl, rfl⟩ | ⟨-, hj⟩
      · exact hphase
      · exact H.previous j phase hj
    · have := H.group g p hp
      grind
  | release i hi =>
    refine ⟨fun j => ?_, fun j => ?_, H.previous, fun g p hg => countBy_erase_le.trans (H.group g p hg),
      countBy_erase_le.trans H.parent⟩
    · simp [H.owned, and_comm]
    · have := H.runs j
      simp only [lookup_erase_eq]
      grind
  | restore i previous hi =>
    obtain ⟨a, ha, hrun⟩ := (H.runs i).1 (mem_of_lookup hi)
    have hprevious : previous ≠ .running := by rcases H.previous i previous hi with h | h <;> simp [h]
    have hless (p : String → Bool) : running (t.allocations.adjust i ({ · with phase := previous })) p ≤
        running t.allocations p := by
      have := running_adjust p previous ha
      simp only [hprevious, decide_false, Bool.and_false, Bool.false_eq_true, if_false] at this
      omega
    refine ⟨fun j => ?_, fun j => ?_, fun j phase hj => H.previous j phase (lookup_of_erase hj).2,
      fun g p hg => (hless _).trans (H.group g p hg), (hless _).trans H.parent⟩
    · rw [H.owned, mem_adjust]
    · have := H.runs j
      simp only [lookup_adjust_eq, mem_erase]
      grind

end Tokens

theorem countAllocations_running {m : AssocMap ℕ Allocation} {p : String → Bool} :
    (countAllocations (m.values.filter fun a => p a.group)).running = Tokens.running m p := by
  have hcount (l : List Allocation) (u : PoolUsage) :
      (l.foldl PoolUsage.count u).running = u.running + l.countP (·.phase = .running) := by
    induction l generalizing u with
    | nil => rfl
    | cons a l ih =>
      rw [foldl_cons, ih, countP_cons]
      cases h : a.phase <;> simp [PoolUsage.count, h]
      omega
  rw [countAllocations, hcount, countP_filter, countP_eq_length_filter, length_filter_values]
  simp [PoolUsage.empty, Tokens.running, Bool.and_comm]

theorem countAllocations_values {m : AssocMap ℕ Allocation} :
    (countAllocations m.values).running = Tokens.running m fun _ => true := by
  rw [← countAllocations_running, filter_true]

namespace GovernorWorld
variable {w : GovernorWorld} {config : ParentConfig} {limit : ℕ}

def tokens (w : GovernorWorld) : Tokens :=
  ⟨w.governor.state.groups, w.governor.state.allocations, w.reservations, w.permits⟩

theorem turn_settle {α : Type} {result : Checked α} {k : α → GovernorWorld}
    (h : ∀ a, result = .ok a → Tokens.Turn limit w.tokens (k a).tokens) :
    Tokens.Turn limit w.tokens (w.settle result k).tokens := by
  unfold settle
  split
  · exact h _ rfl
  all_goals exact .refl

theorem turn_register (H : w.Inv config)
    (h : w.governor.registerGroupInternal group policy capacityId = .ok g) :
    Tokens.Turn limit w.tokens { w with governor := g }.tokens := by
  simp only [PoolGovernor.registerGroupInternal, bind_eq_ok, refuseIf_eq_ok, lift_eq_ok, lock_eq_ok] at h
  obtain ⟨_, _, _, _, _, ⟨_, rfl⟩, _, hg, _, _, h⟩ := h
  cases capacityId <;> simp only [bind_eq_ok] at h <;> obtain ⟨_, _, _, _, h⟩ := h <;> cases h <;>
    refine .rest fun g p hp => ?_ <;> rcases lookup_of_insert hp with ⟨rfl, -⟩ | ⟨-, hp⟩
  all_goals first | exact .inl hp | exact .inr fun _ _ ha => H.state.group_ne hg ha

theorem step_turn (H : w.Inv config) (call : GovernorCall) :
    Tokens.Turn config.maxRunningCalls w.tokens (w.step call).tokens := by
  unfold step
  split
  case isFalse => exact .refl
  next hlegal =>
  cases call with
  | registerCapacity | unregisterCapacity | reviseCapacity =>
    refine turn_settle fun g h => ?_
    simp only [PoolGovernor.registerCapacity, PoolGovernor.unregisterCapacity, PoolGovernor.reviseCapacity,
      bind_eq_ok, lift_eq_ok, lock_eq_ok] at h
    repeat first | obtain ⟨_, ⟨_, rfl⟩, h⟩ := h | obtain ⟨_, _, h⟩ := h
    exact .refl
  | registerGroup group policy | registerGroupInCapacity group policy id =>
    exact turn_settle fun g h => turn_register H h
  | unregisterGroup group =>
    refine turn_settle fun g h => ?_
    simp only [PoolGovernor.unregisterGroup, bind_eq_ok, lift_eq_ok, lock_eq_ok] at h
    obtain ⟨_, ⟨_, rfl⟩, _, _, _, _, h⟩ := h
    cases h
    exact .rest fun _ _ h => .inl (lookup_of_erase h).2
  | reserve group =>
    refine turn_settle fun r h => ?_
    simp only [PoolGovernor.reserve, bind_eq_ok, lift_eq_ok, lock_eq_ok, okOr_eq_ok,
      checkedAdd_eq_some] at h
    obtain ⟨_, ⟨_, rfl⟩, _, _, _, _, _, _, _, _, _, _, _, ⟨_, rfl⟩, h⟩ := h
    cases h
    exact .reserve _ group H.state.fresh
  | markReady i | markRetiring i =>
    refine turn_settle fun g h => ?_
    simp only [PoolGovernor.markReady, PoolGovernor.transition, PoolGovernor.markRetiring, bind_eq_ok, refuseIf_eq_ok,
      lift_eq_ok, lock_eq_ok, okOr_eq_ok] at h
    obtain ⟨_, ⟨_, rfl⟩, a, ha, _, hphase, h⟩ := h
    cases h
    exact .phase i a _ ha (by grind) (by simp)
  | beginExecution i =>
    refine turn_settle fun r h => ?_
    simp only [PoolGovernor.beginExecution, bind_eq_ok, refuseIf_eq_ok, lift_eq_ok,
      lock_eq_ok, okOr_eq_ok, not_or, not_le] at h
    obtain ⟨_, ⟨_, rfl⟩, a, ha, _, hphase, policy, hp, _, ⟨hgroup, hlimit⟩, _, _, h⟩ := h
    cases h
    exact .execute i a policy ha (Decidable.or_iff_not_not_and_not.2 hphase) hp (countAllocations_running ▸ hgroup)
      (H.config_eq ▸ countAllocations_values ▸ hlimit)
  | dropReservation i =>
    simp only [legal, Bool.and_eq_true, decide_eq_true_eq] at hlegal
    exact .release i hlegal.2
  | dropPermit i =>
    simp only [perform]
    split
    · next previous hi =>
      refine turn_settle fun g h => ?_
      obtain ⟨_, _, h⟩ := bind_eq_ok.1 h
      cases h
      exact .restore i previous hi
    · exact .refl

/-- After every sequence of calls the live allocations are those with a live reservation, and those that
run are those with a permit, which remembers a phase to go back to; and what runs, in total and of every
group, is within the limits. -/
theorem run_permits (config : ParentConfig) (calls : List GovernorCall) :
    let w := run config calls
    let s := w.governor.state
    (∀ i, i ∈ w.reservations ↔ i ∈ s.allocations) ∧
    (∀ i, i ∈ w.permits ↔ ∃ a, s.allocations.lookup i = some a ∧ a.phase = .running) ∧
    (∀ i phase, w.permits.lookup i = some phase → phase = .creating ∨ phase = .idle) ∧
    (countAllocations s.allocations.values).running ≤ config.maxRunningCalls ∧
    (∀ group policy, s.groups.lookup group = some policy →
      (s.groupUsage group).running ≤ policy.maxRunningCalls) := by
  have H : (run config calls).Inv config ∧ (run config calls).tokens.Sound config.maxRunningCalls := by
    have hrun (w : GovernorWorld) (hw : w.Inv config ∧ w.tokens.Sound config.maxRunningCalls) :
        (calls.foldl step w).Inv config ∧ (calls.foldl step w).tokens.Sound config.maxRunningCalls := by
      induction calls generalizing w with
      | nil => exact hw
      | cons call calls ih => exact ih _ ⟨hw.1.step, hw.2.turn (step_turn hw.1 call)⟩
    exact hrun _ ⟨.new, by
      constructor <;> simp [tokens, GovernorWorld.new, PoolGovernor.new, GovernorState.empty, Tokens.running]⟩
  obtain ⟨H, T⟩ := H
  exact ⟨T.owned, T.runs, T.previous, countAllocations_values.trans_le T.parent, fun group policy h =>
    (countAllocations_running (p := (· = group))).trans_le (T.group group policy h)⟩

end GovernorWorld

end LuaSkills.Embedded
