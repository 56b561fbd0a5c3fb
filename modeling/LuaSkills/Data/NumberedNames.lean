import Mathlib.Data.Finset.Card
import Mathlib.Order.Interval.Finset.Nat
import LuaSkills.Data.AssocMap

/-!
# Numbered names

Wishes for names are served one after the other: a wish gets the first of its name's numbered variants
that is not in use, where the first variant is the name itself and the search goes on behind the number
that the name reached last. A variant never looks like two names at once, but it may look like another
name: `Lost` says which names a shorter one uses up, and `Served` is the invariant of wishes that come in
an order where every name is behind the names it is a variant of.
-/

open Nat

structure NameNumbering (N : Type*) where
  name : N → ℕ → N
  size : N → ℕ
  name_one : ∀ b, name b 1 = b
  name_inj : ∀ {b b' i i'}, 2 ≤ i → 2 ≤ i' → name b i = name b' i' → b = b' ∧ i = i'
  size_lt : ∀ {b i}, 2 ≤ i → size b < size (name b i)

/-- The number each name reached, and the names in use. -/
structure NameBooks (N : Type*) where
  counters : AssocMap N ℕ
  occupied : Finset N

section
variable {N : Type*} [DecidableEq N]

/-- The first number behind `i` whose variant is free, among the next `fuel` ones. -/
def nextFree (name : ℕ → N) (occupied : Finset N) : ℕ → ℕ → Option ℕ
  | 0, _ => none
  | fuel + 1, i =>
    if name (i + 1) ∈ occupied then nextFree name occupied fuel (i + 1) else some (i + 1)

def NameBooks.index (s : NameBooks N) (b : N) : ℕ := (s.counters.lookup b).getD 0

/-- Serves one wish. -/
def NameNumbering.take (V : NameNumbering N) (s : NameBooks N) (b : N) : Option (N × NameBooks N) :=
  (nextFree (V.name b) s.occupied (s.occupied.card + 1) (s.index b)).map fun i =>
    (V.name b i, ⟨s.counters.insert b i, insert (V.name b i) s.occupied⟩)

variable {name : ℕ → N} {occupied : Finset N} {fuel i j : ℕ}

theorem nextFree_eq_some (h : nextFree name occupied fuel i = some j) :
    i < j ∧ name j ∉ occupied ∧ ∀ k, i < k → k < j → name k ∈ occupied := by
  induction fuel generalizing i with
  | zero => cases h
  | succ fuel ih =>
    rw [nextFree] at h
    split at h
    next hused =>
      obtain ⟨hlt, hfree, hbetween⟩ := ih h
      refine ⟨by omega, hfree, fun k hk hkj => ?_⟩
      rcases lt_or_ge (i + 1) k with hk' | hk'
      · exact hbetween k hk' hkj
      · exact (show k = i + 1 by omega) ▸ hused
    next hfree =>
      cases h
      exact ⟨lt_succ_self i, hfree, fun k hk hkj => by omega⟩

theorem nextFree_eq_none (h : nextFree name occupied fuel i = none) :
    ∀ k ∈ Finset.Ioc i (i + fuel), name k ∈ occupied := by
  induction fuel generalizing i with
  | zero =>
    intro k hk
    rw [Finset.mem_Ioc] at hk
    omega
  | succ fuel ih =>
    rw [nextFree] at h
    split at h
    next hused =>
      intro k hk
      rw [Finset.mem_Ioc] at hk
      rcases lt_or_ge (i + 1) k with hk' | hk'
      · exact ih h k (Finset.mem_Ioc.mpr (by omega))
      · exact (show k = i + 1 by omega) ▸ hused
    · cases h

/-- There is a free variant, because there are more variants than names in use. -/
theorem nextFree_isSome (hname : ∀ k k', 1 ≤ k → 1 ≤ k' → name k = name k' → k = k')
    (h : occupied.card < fuel) : (nextFree name occupied fuel i).isSome := by
  cases hnone : nextFree name occupied fuel i with
  | some j => rfl
  | none =>
    have hused := nextFree_eq_none hnone
    have hinj : Set.InjOn name (Finset.Ioc i (i + fuel) : Finset ℕ) := by
      intro k hk k' hk' heq
      rw [Finset.mem_coe, Finset.mem_Ioc] at hk hk'
      exact hname k k' (by omega) (by omega) heq
    have hcard := Finset.card_le_card_of_injOn name hused hinj
    rw [card_Ioc] at hcard
    omega

namespace NameNumbering
variable (V : NameNumbering N) {s s' : NameBooks N} {b b' n : N}

omit [DecidableEq N] in
theorem name_ne (hi : 2 ≤ i) : V.name b i ≠ b := by
  intro heq
  have hlt := V.size_lt (b := b) hi
  rw [heq] at hlt
  omega

omit [DecidableEq N] in
theorem name_index_inj (hk : 1 ≤ k) (hk' : 1 ≤ k') (h : V.name b k = V.name b k') : k = k' := by
  rcases eq_or_lt_of_le hk with rfl | hk
  · rcases eq_or_lt_of_le hk' with rfl | hk'
    · rfl
    · rw [V.name_one] at h
      exact absurd h.symm (V.name_ne hk')
  · rcases eq_or_lt_of_le hk' with rfl | hk'
    · rw [V.name_one] at h
      exact absurd h (V.name_ne hk)
    · exact (V.name_inj hk hk' h).2

/-- Every wish can be served. -/
theorem take_isSome (s : NameBooks N) (b : N) : (V.take s b).isSome := by
  rw [take, Option.isSome_map]
  exact nextFree_isSome (fun k k' hk hk' => V.name_index_inj hk hk') (lt_succ_self _)

theorem take_eq_some (h : V.take s b = some (n, s')) :
    ∃ i, s.index b < i ∧ n = V.name b i ∧ n ∉ s.occupied ∧ s'.occupied = insert n s.occupied ∧
      (∀ k, s.index b < k → k < i → V.name b k ∈ s.occupied) ∧
        ∀ b', s'.index b' = if b' = b then i else s.index b' := by
  obtain ⟨i, hi, heq⟩ := Option.map_eq_some_iff.mp h
  obtain ⟨hlt, hfree, hbetween⟩ := nextFree_eq_some hi
  cases heq
  refine ⟨i, hlt, rfl, hfree, rfl, hbetween, fun b' => ?_⟩
  simp only [NameBooks.index, AList.lookup_insert_eq]
  split <;> rfl

/-! ## Names that a shorter name uses up -/

variable (members : N → ℕ) (reserved : Finset N)

open scoped Classical in
/-- The name is a numbered variant of a name with so many wishes that one of them gets it. -/
def Lost (n : N) : Prop :=
  ∃ b j, ∃ _ : 2 ≤ j ∧ V.name b j = n, n ∉ reserved ∧
    ((Finset.Ico 1 j).filter fun i => V.name b i ∉ reserved ∧ (i = 1 → ¬ Lost b)).card < members b
termination_by V.size n
decreasing_by
  rename_i h
  exact h.2 ▸ V.size_lt h.1

/-- The variants that the wishes for a name get, in their order. -/
def Open (b : N) (i : ℕ) : Prop := V.name b i ∉ reserved ∧ (i = 1 → ¬ V.Lost members reserved b)

open scoped Classical in
/-- The open variants with a number in a range. -/
noncomputable def opened (b : N) (range : Finset ℕ) : Finset ℕ :=
  range.filter (V.Open members reserved b)

variable {members reserved} {range : Finset ℕ}

theorem mem_opened : i ∈ V.opened members reserved b range ↔ i ∈ range ∧ V.Open members reserved b i := by
  classical
  exact Finset.mem_filter

open scoped Classical in
theorem opened_eq : V.opened members reserved b range =
    range.filter fun i => V.name b i ∉ reserved ∧ (i = 1 → ¬ V.Lost members reserved b) := by
  ext i
  rw [V.mem_opened, Finset.mem_filter]
  rfl

theorem lost_iff : V.Lost members reserved n ↔ ∃ b j, 2 ≤ j ∧ V.name b j = n ∧ n ∉ reserved ∧
    (V.opened members reserved b (Finset.Ico 1 j)).card < members b := by
  rw [Lost]
  constructor
  · rintro ⟨b, j, ⟨hj, hname⟩, hfree, hcard⟩
    exact ⟨b, j, hj, hname, hfree, by rwa [opened_eq]⟩
  · rintro ⟨b, j, hj, hname, hfree, hcard⟩
    exact ⟨b, j, ⟨hj, hname⟩, hfree, by rwa [opened_eq] at hcard⟩

/-- A name that nobody else wishes for is open under itself, unless it is reserved or lost. -/
theorem open_one : V.Open members reserved b 1 ↔ b ∉ reserved ∧ ¬ V.Lost members reserved b := by
  rw [Open, V.name_one]
  simp only [true_implies]

variable (members reserved) in
/-- After the wishes `done`, each name has given its first open variants to its wishes. -/
structure Served (done : List N) (s : NameBooks N) : Prop where
  count : ∀ b, (V.opened members reserved b (Finset.Ico 1 (s.index b + 1))).card = done.count b
  last : ∀ b, s.index b ≠ 0 → V.Open members reserved b (s.index b)
  used : ∀ n, n ∈ s.occupied ↔
    n ∈ reserved ∨ ∃ b i, 1 ≤ i ∧ i ≤ s.index b ∧ V.Open members reserved b i ∧ V.name b i = n

namespace Served
variable {V} {done : List N}

theorem new : V.Served members reserved [] ⟨∅, reserved⟩ where
  count _ := by simp [NameBooks.index, opened]
  last _ h := absurd rfl h
  used n := by
    refine ⟨.inl, ?_⟩
    rintro (h | ⟨b, i, hi, hle, -⟩)
    · exact h
    · have : i ≤ 0 := hle
      omega

theorem index_eq_zero (S : V.Served members reserved done s) (h : done.count b = 0) : s.index b = 0 := by
  by_contra hne
  have hmem : s.index b ∈ V.opened members reserved b (Finset.Ico 1 (s.index b + 1)) :=
    V.mem_opened.mpr ⟨Finset.mem_Ico.mpr (by omega), S.last b hne⟩
  have hpos := Finset.card_pos.mpr ⟨_, hmem⟩
  rw [S.count, h] at hpos
  omega

/-- A name behind all its shorter names: its variants in use are those that are not open. -/
theorem mem_occupied (S : V.Served members reserved done s)
    (hshorter : ∀ b' j, 2 ≤ j → V.name b' j = b → done.count b' = members b')
    (hlonger : ∀ j, 2 ≤ j → done.count (V.name b j) = 0) (hi : s.index b < i) :
    V.name b i ∈ s.occupied ↔ ¬ V.Open members reserved b i := by
  rw [S.used]
  constructor
  · rintro (hreserved | ⟨b', i', hi', hle, hopen, hname⟩) hfree
    · exact hfree.1 hreserved
    · rcases eq_or_lt_of_le hi' with rfl | hi'
      · rw [V.name_one] at hname
        rcases lt_or_ge 1 i with hi₂ | hi₁
        · have := S.index_eq_zero (hname ▸ hlonger i hi₂)
          omega
        · rw [show i = 1 by omega, V.name_one] at hname
          subst hname
          omega
      · rcases lt_or_ge 1 i with hi₂ | hi₁
        · obtain ⟨rfl, rfl⟩ := V.name_inj hi' hi₂ hname
          omega
        · obtain rfl : i = 1 := by omega
          rw [V.name_one] at hname
          refine hfree.2 rfl (V.lost_iff.mpr ⟨b', i', hi', hname, hname ▸ hopen.1, ?_⟩)
          rw [← hshorter b' i' hi' hname, ← S.count b']
          refine Finset.card_lt_card ⟨fun k hk => ?_, fun hsub => ?_⟩
          · obtain ⟨hk, hopenk⟩ := V.mem_opened.mp hk
            rw [Finset.mem_Ico] at hk
            exact V.mem_opened.mpr ⟨Finset.mem_Ico.mpr (by omega), hopenk⟩
          · have hmem := V.mem_opened.mp (hsub (V.mem_opened.mpr ⟨Finset.mem_Ico.mpr (by omega), hopen⟩))
            rw [Finset.mem_Ico] at hmem
            omega
  · intro hclosed
    by_cases hreserved : V.name b i ∈ reserved
    · exact .inl hreserved
    · have hlost : i = 1 ∧ V.Lost members reserved b := by
        by_contra hnot
        exact hclosed ⟨hreserved, fun hone hlost => hnot ⟨hone, hlost⟩⟩
      obtain ⟨rfl, hlost⟩ := hlost
      obtain ⟨b', j, hj, hname, hfree, hcard⟩ := V.lost_iff.mp hlost
      refine .inr ⟨b', j, by omega, ?_, ⟨hname ▸ hfree, by omega⟩, hname.trans (V.name_one b).symm⟩
      by_contra hlt
      rw [← hshorter b' j hj hname, ← S.count b'] at hcard
      refine absurd hcard (not_lt.mpr (Finset.card_le_card fun k hk => ?_))
      obtain ⟨hk, hopenk⟩ := V.mem_opened.mp hk
      rw [Finset.mem_Ico] at hk
      exact V.mem_opened.mpr ⟨Finset.mem_Ico.mpr (by omega), hopenk⟩

/-- One wish gets the next open variant. -/
theorem take (S : V.Served members reserved done s)
    (hshorter : ∀ b' j, 2 ≤ j → V.name b' j = b → done.count b' = members b')
    (hlonger : ∀ j, 2 ≤ j → done.count (V.name b j) = 0) (h : V.take s b = some (n, s')) :
    V.Served members reserved (done ++ [b]) s' ∧
      ∃ i, s.index b < i ∧ n = V.name b i ∧ V.Open members reserved b i ∧
        ∀ k, s.index b < k → k < i → ¬ V.Open members reserved b k := by
  obtain ⟨i, hi, rfl, hfree, hoccupied, hbetween, hindex⟩ := V.take_eq_some h
  have hopen : V.Open members reserved b i :=
    not_not.mp fun hclosed => hfree ((S.mem_occupied hshorter hlonger hi).mpr hclosed)
  have hclosed : ∀ k, s.index b < k → k < i → ¬ V.Open members reserved b k := fun k hk hki =>
    (S.mem_occupied hshorter hlonger hk).mp (hbetween k hk hki)
  refine ⟨⟨fun b' => ?_, fun b' hne => ?_, fun n => ?_⟩, i, hi, rfl, hopen, hclosed⟩
  · rw [hindex, List.count_append]
    split
    next heq =>
      subst heq
      have hinsert : V.opened members reserved b' (Finset.Ico 1 (i + 1)) =
          insert i (V.opened members reserved b' (Finset.Ico 1 (s.index b' + 1))) := by
        ext k
        rw [Finset.mem_insert, V.mem_opened, V.mem_opened, Finset.mem_Ico, Finset.mem_Ico]
        constructor
        · rintro ⟨hk, hopenk⟩
          rcases lt_or_ge (s.index b') k with hlt | hle
          · refine .inl (by_contra fun hne => hclosed k hlt (by omega) hopenk)
          · exact .inr ⟨by omega, hopenk⟩
        · rintro (rfl | ⟨hk, hopenk⟩)
          · exact ⟨by omega, hopen⟩
          · exact ⟨by omega, hopenk⟩
      rw [hinsert, Finset.card_insert_of_notMem, S.count, List.count_singleton_self]
      rw [V.mem_opened, Finset.mem_Ico]
      omega
    next hne =>
      have hcount : [b].count b' = 0 :=
        List.count_eq_zero_of_not_mem fun hmem => hne (List.mem_singleton.mp hmem)
      rw [S.count, hcount, add_zero]
  · rw [hindex] at hne ⊢
    split
    next heq => exact heq ▸ hopen
    next hneq =>
      rw [if_neg hneq] at hne
      exact S.last b' hne
  · rw [hoccupied, Finset.mem_insert, S.used]
    constructor
    · rintro (rfl | hreserved | ⟨b', i', hi', hle, hopen', hname⟩)
      · exact .inr ⟨b, i, by omega, by rw [hindex, if_pos rfl], hopen, rfl⟩
      · exact .inl hreserved
      · refine .inr ⟨b', i', hi', ?_, hopen', hname⟩
        rw [hindex]
        split
        next heq =>
          subst heq
          omega
        · exact hle
    · rintro (hreserved | ⟨b', i', hi', hle, hopen', hname⟩)
      · exact .inr (.inl hreserved)
      · rw [hindex] at hle
        split at hle
        next heq =>
          subst heq
          rcases lt_or_ge (s.index b') i' with hlt | hge
          · -- Between the old number and the new one nothing is open.
            have : i' = i := by_contra fun hne => hclosed i' hlt (by omega) hopen'
            exact .inl (this ▸ hname.symm)
          · exact .inr (.inr ⟨b', i', hi', hge, hopen', hname⟩)
        · exact .inr (.inr ⟨b', i', hi', hle, hopen', hname⟩)

end Served

end NameNumbering

end
