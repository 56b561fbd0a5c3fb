import Mathlib.Algebra.GroupWithZero.Nat
import Mathlib.Data.List.AList
import Mathlib.Algebra.BigOperators.Group.Finset.Piecewise
import Mathlib.Algebra.BigOperators.Group.List.Basic

/-!
# Finite maps with counted entries

`AssocMap K V` is Mathlib's association list at a constant value type, with the two folds an
accounting proof needs: `sumBy` adds a weight over all entries and `countBy` counts the entries that
satisfy a test. Both split along one key (`sumBy_of_lookup`, `countBy_of_lookup`), which is what
every insertion, removal and in-place update reduces to.
-/

/-- A finite map from `K` to `V`, each key at most once. -/
abbrev AssocMap (K V : Type*) := AList fun _ : K => V

namespace AList

open List

section
variable {K V : Type*} [DecidableEq K] {m : AssocMap K V} {k k' : K} {v v' : V}

/-- The weight of every entry, added up. -/
def sumBy (m : AssocMap K V) (f : K → V → ℕ) : ℕ :=
  (m.entries.map fun e => f e.1 e.2).sum

/-- The number of entries whose value passes `p`. -/
def countBy (m : AssocMap K V) (p : V → Bool) : ℕ :=
  m.entries.countP fun e => p e.2

/-- The number of entries. -/
def size (m : AssocMap K V) : ℕ := m.entries.length

/-- The values in storage order. -/
def values (m : AssocMap K V) : List V := m.entries.map fun e => e.2

/-- Replaces the value at `k`, if there is one, by its image under `f`. -/
def adjust (m : AssocMap K V) (k : K) (f : V → V) : AssocMap K V :=
  match m.lookup k with
  | some v => m.insert k (f v)
  | none => m

/-- Replaces the value at `k`; there is none, or `f` refuses it, in a call that would unwind. -/
def update? (m : AssocMap K V) (k : K) (f : V → Option V) : Option (AssocMap K V) :=
  (m.lookup k).bind fun v => (f v).map fun v' => m.insert k v'

def mapValues (m : AssocMap K V) (f : K → V → V) : AssocMap K V where
  entries := m.entries.map fun e => ⟨e.1, f e.1 e.2⟩
  nodupKeys := by
    have hkeys : (m.entries.map fun e => (⟨e.1, f e.1 e.2⟩ : Sigma fun _ : K => V)).keys =
        m.entries.keys := by
      simp [List.keys, List.map_map, Function.comp_def]
    exact (congrArg Nodup hkeys).mpr m.nodupKeys

def retain (m : AssocMap K V) (p : K → V → Bool) : AssocMap K V where
  entries := m.entries.filter fun e => p e.1 e.2
  nodupKeys := m.nodupKeys.sublist filter_sublist

theorem mem_iff_lookup : k ∈ m ↔ ∃ v, m.lookup k = some v := by
  rw [← AList.lookup_isSome, Option.isSome_iff_exists]

theorem mem_of_lookup (h : m.lookup k = some v) : k ∈ m := mem_iff_lookup.2 ⟨v, h⟩

theorem mem_entries_iff : e ∈ m.entries ↔ m.lookup e.1 = some e.2 :=
  (AList.mem_lookup_iff (s := m)).symm

theorem lookup_retain : (m.retain p).lookup k = some v ↔ m.lookup k = some v ∧ p k v := by
  rw [← mem_entries_iff (e := ⟨k, v⟩), ← mem_entries_iff (e := ⟨k, v⟩)]
  exact mem_filter

theorem mem_of_mem_retain (h : k ∈ m.retain p) : k ∈ m := by
  obtain ⟨v, hv⟩ := mem_iff_lookup.1 h
  exact mem_of_lookup (lookup_retain.1 hv).1

theorem mem_values_iff : v ∈ m.values ↔ ∃ k, m.lookup k = some v := by
  simp only [values, mem_map]
  constructor
  · rintro ⟨e, he, rfl⟩
    exact ⟨e.1, mem_entries_iff.1 he⟩
  · rintro ⟨k, h⟩
    exact ⟨⟨k, v⟩, mem_entries_iff.2 h, rfl⟩

theorem lookup_insert_eq : (m.insert k v).lookup k' = if k' = k then some v else m.lookup k' := by
  split
  · next h => rw [h, AList.lookup_insert]
  · next h => exact AList.lookup_insert_ne h

theorem lookup_erase_eq : (m.erase k).lookup k' = if k' = k then none else m.lookup k' := by
  split
  · next h => rw [h, AList.lookup_erase]
  · next h => exact AList.lookup_erase_ne h

theorem lookup_of_erase (h : (m.erase k).lookup k' = some v) : k' ≠ k ∧ m.lookup k' = some v := by
  rw [lookup_erase_eq] at h
  split at h
  · cases h
  · next hne => exact ⟨hne, h⟩

theorem lookup_of_insert (h : (m.insert k v).lookup k' = some v') :
    (k' = k ∧ v' = v) ∨ (k' ≠ k ∧ m.lookup k' = some v') := by
  rw [lookup_insert_eq] at h
  split at h
  · next heq => exact .inl ⟨heq, (Option.some.inj h).symm⟩
  · next hne => exact .inr ⟨hne, h⟩

/-- What holds of every entry survives the write of an entry that satisfies it. -/
theorem forall_insert {P : K → V → Prop} (H : ∀ k v, m.lookup k = some v → P k v) (h : P k v) :
    ∀ k' v', (m.insert k v).lookup k' = some v' → P k' v' := by
  intro k' v' hk'
  rw [lookup_insert_eq] at hk'
  split at hk'
  · next heq =>
    cases hk'
    exact heq ▸ h
  · exact H k' v' hk'

theorem forall_erase {P : K → V → Prop} (H : ∀ k v, m.lookup k = some v → P k v) :
    ∀ k' v', (m.erase k).lookup k' = some v' → P k' v' := fun k' v' hk' =>
  H k' v' (lookup_of_erase hk').2

/-- A value that is under one key at most stays so when it is written where it is under none. -/
theorem unique_insert (H : ∀ k k', m.lookup k = some w → m.lookup k' = some w → k = k')
    (h : v = w → ∀ k', m.lookup k' ≠ some w) (k₁ k₂ : K) (h₁ : (m.insert k v).lookup k₁ = some w)
    (h₂ : (m.insert k v).lookup k₂ = some w) : k₁ = k₂ := by
  rcases lookup_of_insert h₁ with ⟨e₁, hw⟩ | ⟨-, h₁⟩
  · rcases lookup_of_insert h₂ with ⟨e₂, -⟩ | ⟨-, h₂⟩
    · rw [e₁, e₂]
    · exact absurd h₂ (h hw.symm k₂)
  · rcases lookup_of_insert h₂ with ⟨-, hw⟩ | ⟨-, h₂⟩
    · exact absurd h₁ (h hw.symm k₁)
    · exact H k₁ k₂ h₁ h₂

theorem adjust_of_lookup (h : m.lookup k = some v) : m.adjust k f = m.insert k (f v) := by
  simp only [adjust, h]

theorem lookup_adjust_eq :
    (m.adjust k f).lookup k' = if k' = k then (m.lookup k').map f else m.lookup k' := by
  unfold adjust
  split
  · next v h =>
    rw [lookup_insert_eq]
    split
    · next e => rw [e, h, Option.map_some]
    · rfl
  · next h =>
    split
    · next e => rw [e, h, Option.map_none]
    · rfl

@[simp] theorem lookup_adjust_self : (m.adjust k f).lookup k = (m.lookup k).map f := by
  rw [lookup_adjust_eq, if_pos rfl]

theorem lookup_adjust_ne (h : k' ≠ k) : (m.adjust k f).lookup k' = m.lookup k' := by
  rw [lookup_adjust_eq, if_neg h]

@[simp] theorem mem_adjust : k' ∈ m.adjust k f ↔ k' ∈ m := by
  simp only [← AList.lookup_isSome, lookup_adjust_eq]
  split <;> simp

@[simp] theorem lookup_mapValues : (m.mapValues f).lookup k = (m.lookup k).map (f k) := by
  cases hk : m.lookup k with
  | none =>
    rw [Option.map_none, AList.lookup_eq_none]
    rw [AList.lookup_eq_none] at hk
    intro h
    refine hk ?_
    obtain ⟨v, hv⟩ := mem_iff_lookup.1 h
    have he : (⟨k, v⟩ : Sigma fun _ : K => V) ∈ (m.mapValues f).entries := mem_entries_iff.2 hv
    obtain ⟨e, hm, heq⟩ := mem_map.1 he
    cases heq
    exact mem_of_lookup (mem_entries_iff.1 hm)
  | some v =>
    refine (mem_entries_iff (m := m.mapValues f) (e := ⟨k, f k v⟩)).1 ?_
    exact mem_map.2 ⟨⟨k, v⟩, mem_entries_iff.2 hk, rfl⟩

/-! ## Splitting a fold at one key -/

/-- The entries are those of `k` followed by the rest, up to order. -/
theorem entries_perm_of_lookup (h : m.lookup k = some v) :
    m.entries.Perm (⟨k, v⟩ :: (m.erase k).entries) := by
  obtain ⟨w, l₁, l₂, hk, hl, he⟩ := exists_of_kerase
    (AList.mem_keys.1 (mem_of_lookup h))
  have hw : m.lookup k = some w := by
    refine (mem_entries_iff (m := m) (e := ⟨k, w⟩)).1 ?_
    rw [hl]
    exact mem_append_right _ mem_cons_self
  obtain rfl : w = v := Option.some.inj (hw.symm.trans h)
  have herase : (m.erase k).entries = l₁ ++ l₂ := he
  rw [herase, hl]
  exact perm_middle

theorem sumBy_of_lookup (h : m.lookup k = some v) : m.sumBy f = f k v + (m.erase k).sumBy f := by
  have := ((entries_perm_of_lookup h).map fun e => f e.1 e.2).sum_eq
  simpa only [sumBy, map_cons, sum_cons] using this

theorem countBy_of_lookup (h : m.lookup k = some v) :
    m.countBy p = (m.erase k).countBy p + if p v then 1 else 0 := by
  simp only [countBy]
  rw [(entries_perm_of_lookup h).countP_eq, countP_cons]

theorem size_of_lookup (h : m.lookup k = some v) : m.size = (m.erase k).size + 1 := by
  have := (entries_perm_of_lookup h).length_eq
  simpa only [size, length_cons] using this

theorem erase_of_notMem (h : k ∉ m) : m.erase k = m := by
  apply AList.ext
  exact kerase_of_notMem_keys fun hk => h (AList.mem_keys.2 hk)

theorem erase_insert : (m.insert k v).erase k = m.erase k := by
  apply AList.ext
  exact kerase_cons_eq (s := (⟨k, v⟩ : Sigma fun _ : K => V)) rfl

theorem insert_erase : (m.erase k).insert k v = m.insert k v := by
  apply AList.ext
  rw [AList.entries_insert, AList.entries_insert]
  congr 1
  exact kerase_of_notMem_keys (notMem_keys_kerase k m.nodupKeys)

theorem sumBy_insert : (m.insert k v).sumBy f = f k v + (m.erase k).sumBy f := by
  rw [sumBy_of_lookup (AList.lookup_insert m), erase_insert]

theorem countBy_insert : (m.insert k v).countBy p = (m.erase k).countBy p + if p v then 1 else 0 := by
  rw [countBy_of_lookup (AList.lookup_insert m), erase_insert]

theorem countBy_insert_of_notMem (h : k ∉ m) :
    (m.insert k v).countBy p = m.countBy p + if p v then 1 else 0 := by
  rw [countBy_insert, erase_of_notMem h]

theorem size_insert_of_notMem (h : k ∉ m) : (m.insert k v).size = m.size + 1 := by
  rw [size_of_lookup (AList.lookup_insert m), erase_insert, erase_of_notMem h]

theorem size_erase_le : (m.erase k).size ≤ m.size := by
  by_cases hk : k ∈ m
  · obtain ⟨v, hv⟩ := mem_iff_lookup.1 hk
    rw [size_of_lookup hv]
    exact Nat.le_succ _
  · rw [erase_of_notMem hk]

theorem size_insert_of_lookup (h : m.lookup k = some v) :
    (m.insert k v').size = m.size := by
  rw [size_of_lookup (AList.lookup_insert m), erase_insert, size_of_lookup h]

theorem countBy_insert_of_lookup (h : m.lookup k = some v) :
    (m.insert k w).countBy p + (if p v then 1 else 0) = m.countBy p + if p w then 1 else 0 := by
  rw [countBy_insert, countBy_of_lookup h]
  omega

/-- Replacing one value moves a count by that value alone. -/
theorem countBy_adjust (h : m.lookup k = some v) : (m.adjust k f).countBy p + (if p v then 1 else 0) =
      m.countBy p + if p (f v) then 1 else 0 := by
  rw [adjust_of_lookup h, countBy_insert_of_lookup h]

theorem countBy_adjust_eq {f : V → V} (h : ∀ v, p (f v) = p v) :
    (m.adjust k f).countBy p = m.countBy p := by
  cases hk : m.lookup k with
  | none => simp only [adjust, hk]
  | some v =>
    have := countBy_adjust (p := p) (f := f) hk
    rw [h] at this
    omega

theorem countBy_congr (h : ∀ k v, m.lookup k = some v → p v = q v) : m.countBy p = m.countBy q := by
  refine countP_congr fun e he => ?_
  rw [h e.1 e.2 (mem_entries_iff.1 he)]

theorem countBy_eq_zero : m.countBy p = 0 ↔ ∀ k v, m.lookup k = some v → p v = false := by
  simp only [countBy, countP_eq_zero, Bool.not_eq_true]
  exact ⟨fun h k v hk => h ⟨k, v⟩ (mem_entries_iff.2 hk),
    fun h e he => h e.1 e.2 (mem_entries_iff.1 he)⟩

theorem countBy_pos_of_lookup (h : m.lookup k = some v) (hp : p v) : 0 < m.countBy p := by
  rw [countBy_of_lookup h, if_pos hp]
  omega

theorem countBy_erase_le : (m.erase k).countBy p ≤ m.countBy p :=
  (kerase_sublist k m.entries).countP_le

theorem sumBy_congr (h : ∀ k v, m.lookup k = some v → f k v = g k v) : m.sumBy f = m.sumBy g := by
  unfold sumBy
  congr 1
  exact map_congr_left fun e he => h e.1 e.2 (mem_entries_iff.1 he)

theorem sumBy_eq_sum_keys {f : K → V → ℕ} {g : K → ℕ}
    (h : ∀ k v, m.lookup k = some v → f k v = g k) :
    m.sumBy f = ∑ k ∈ m.keys.toFinset, g k := by
  rw [sumBy_congr (g := fun k _ => g k) h, List.sum_toFinset _ m.keys_nodup]
  simp only [sumBy, keys, List.keys, List.map_map]
  rfl

omit [DecidableEq K] in
theorem length_filter_values : (m.values.filter p).length = m.countBy p := by
  rw [← countP_eq_length_filter, values, countP_map]
  rfl

omit [DecidableEq K] in
@[simp] theorem countBy_empty : (∅ : AssocMap K V).countBy p = 0 := rfl

end

/-! ## Partitions -/

section
open Finset
variable {K V ι : Type*} [DecidableEq ι]

/-- Counting by owner loses no entry when every owner is listed. -/
theorem sum_countBy_owner {m : AssocMap K V} (own : V → ι) (h : ∀ e ∈ m.entries, own e.2 ∈ s) :
    ∑ i ∈ s, countBy m (fun v => own v = i) = m.size := by
  unfold countBy size
  generalize m.entries = l at h ⊢
  induction l with
  | nil => simp
  | cons e l ih =>
    simp only [countP_cons, Finset.sum_add_distrib, length_cons, decide_eq_true_eq]
    rw [ih fun x hx => h x (mem_cons_of_mem _ hx), Finset.sum_ite_eq,
      if_pos (h e mem_cons_self)]

end

end AList
