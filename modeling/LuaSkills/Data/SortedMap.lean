import Mathlib.Data.List.Nodup
import Mathlib.Data.List.Perm.Basic
import Mathlib.Data.List.Sort
import Mathlib.Order.Basic

/-!
# Ordered finite maps

`SortedMap K V` lists its entries by strictly increasing key, so a map is determined by its lookups
(`ext_lookup`) and a traversal visits the keys in order. Every operation is described by its effect on
`lookup`.
-/

/-- A finite map whose entries are listed by increasing key. -/
structure SortedMap (K V : Type*) [LT K] where
  entries : List (K × V)
  sorted : entries.Pairwise fun a b => a.1 < b.1

namespace SortedMap

open List

section
variable {K V : Type*} [LT K]

instance [DecidableEq K] [DecidableEq V] : DecidableEq (SortedMap K V) := fun m m' =>
  decidable_of_iff (m.entries = m'.entries) (by cases m; cases m'; simp)

instance : EmptyCollection (SortedMap K V) := ⟨⟨[], Pairwise.nil⟩⟩

/-- The number of entries. -/
def size (m : SortedMap K V) : ℕ := m.entries.length

def keys (m : SortedMap K V) : List K := m.entries.map Prod.fst

def isEmpty (m : SortedMap K V) : Bool := m.entries.isEmpty

@[simp] theorem entries_empty : (∅ : SortedMap K V).entries = [] := rfl

@[simp] theorem isEmpty_iff {m : SortedMap K V} : m.isEmpty = true ↔ m = ∅ := by
  obtain ⟨l, hl⟩ := m
  simp only [isEmpty, List.isEmpty_iff, EmptyCollection.emptyCollection, SortedMap.mk.injEq]

end

section
variable {K V : Type*} [LinearOrder K] {m m' : SortedMap K V} {k k' : K} {v v' : V}

/-- The value at `k`. -/
def lookup (m : SortedMap K V) (k : K) : Option V := m.entries.lookup k

/-- The entries with `k` set to `v`, in order. -/
def insertEntry (k : K) (v : V) : List (K × V) → List (K × V)
  | [] => [(k, v)]
  | e :: rest =>
    if k < e.1 then (k, v) :: e :: rest
    else if k = e.1 then (k, v) :: rest
    else e :: insertEntry k v rest

theorem mem_insertEntry (h : e ∈ insertEntry k v l) : e = (k, v) ∨ e ∈ l := by
  induction l with
  | nil => simpa [insertEntry] using h
  | cons e' rest ih =>
    simp only [insertEntry] at h
    split_ifs at h with hlt heq
    · simpa using h
    · simp only [mem_cons] at h ⊢
      exact h.imp_right Or.inr
    · simp only [mem_cons] at h ⊢
      obtain rfl | h := h
      · exact Or.inr (Or.inl rfl)
      · exact (ih h).imp_right Or.inr

theorem insertEntry_sorted {l : List (K × V)} (h : l.Pairwise fun a b => a.1 < b.1) :
    (insertEntry k v l).Pairwise fun a b => a.1 < b.1 := by
  induction l with
  | nil => exact pairwise_singleton _ _
  | cons e rest ih =>
    obtain ⟨hhead, htail⟩ := pairwise_cons.1 h
    simp only [insertEntry]
    split_ifs with hlt heq
    · refine pairwise_cons.2 ⟨fun e' he' => ?_, h⟩
      obtain rfl | he' := mem_cons.1 he'
      · exact hlt
      · exact hlt.trans (hhead e' he')
    · exact pairwise_cons.2 ⟨fun e' he' => heq ▸ hhead e' he', htail⟩
    · refine pairwise_cons.2 ⟨fun e' he' => ?_, ih htail⟩
      obtain rfl | he' := mem_insertEntry he'
      · exact lt_of_le_of_ne (not_lt.1 hlt) (Ne.symm heq)
      · exact hhead e' he'

theorem lookup_cons_eq {e : K × V} : (e :: l).lookup k = if k = e.1 then some e.2 else l.lookup k := by
  obtain ⟨k', v'⟩ := e
  by_cases hk : k = k'
  · simp [hk]
  · have hne : (k == k') = false := beq_eq_false_iff_ne.2 hk
    simp [lookup_cons, hk, hne]

theorem lookup_insertEntry : (insertEntry k v l).lookup k' = if k' = k then some v else l.lookup k' := by
  induction l with
  | nil => simp only [insertEntry, lookup_cons_eq]
  | cons e rest ih =>
    simp only [insertEntry]
    by_cases hlt : k < e.1
    · rw [if_pos hlt, lookup_cons_eq]
    · rw [if_neg hlt]
      by_cases heq : k = e.1
      · rw [if_pos heq, lookup_cons_eq, lookup_cons_eq, ← heq]
        split_ifs <;> rfl
      · rw [if_neg heq, lookup_cons_eq, lookup_cons_eq, ih]
        split_ifs with he hk hk
        · exact absurd (hk.symm.trans he) heq
        · rfl
        · rfl
        · rfl

def insert (m : SortedMap K V) (k : K) (v : V) : SortedMap K V :=
  ⟨insertEntry k v m.entries, insertEntry_sorted m.sorted⟩

def erase (m : SortedMap K V) (k : K) : SortedMap K V :=
  ⟨m.entries.filter fun e => e.1 ≠ k, m.sorted.filter _⟩

theorem mem_entries_iff : (k, v) ∈ m.entries ↔ m.lookup k = some v := by
  obtain ⟨l, hl⟩ := m
  simp only [lookup]
  induction l with
  | nil => simp
  | cons e rest ih =>
    obtain ⟨hhead, htail⟩ := pairwise_cons.1 hl
    rw [mem_cons, lookup_cons_eq, ih htail]
    by_cases hk : k = e.1
    · subst hk
      have hrest : rest.lookup e.1 ≠ some v := by
        rw [Ne, ← ih htail]
        exact fun hmem => lt_irrefl e.1 (hhead (e.1, v) hmem)
      simp only [if_true, Option.some.injEq, hrest, or_false, Prod.ext_iff, true_and]
      exact eq_comm
    · rw [if_neg hk, Prod.ext_iff]
      simp only [hk, false_and, false_or]

theorem keys_nodup (m : SortedMap K V) : m.keys.Nodup := by
  rw [keys, Nodup, pairwise_map]
  exact m.sorted.imp ne_of_lt

theorem mem_keys : k ∈ m.keys ↔ ∃ v, m.lookup k = some v := by
  simp only [keys, mem_map, Prod.exists, exists_and_right, exists_eq_right, mem_entries_iff]

@[simp] theorem lookup_empty : (∅ : SortedMap K V).lookup k = none := rfl

theorem lookup_insert : (m.insert k v).lookup k' = if k' = k then some v else m.lookup k' :=
  lookup_insertEntry

@[simp] theorem lookup_insert_self : (m.insert k v).lookup k = some v := by
  rw [lookup_insert, if_pos rfl]

theorem lookup_insert_of_ne (h : k' ≠ k) : (m.insert k v).lookup k' = m.lookup k' := by
  rw [lookup_insert, if_neg h]

theorem lookup_erase : (m.erase k).lookup k' = if k' = k then none else m.lookup k' := by
  refine Option.ext fun v => ?_
  rw [← mem_entries_iff, erase, mem_filter, mem_entries_iff]
  split_ifs with hk
  · simp [hk]
  · simp [hk]

theorem ext_lookup (h : ∀ k, m.lookup k = m'.lookup k) : m = m' := by
  have hmem : ∀ e, e ∈ m.entries ↔ e ∈ m'.entries := fun e => by
    rw [mem_entries_iff, mem_entries_iff, h]
  have hnodup : ∀ n : SortedMap K V, n.entries.Nodup := fun n =>
    n.sorted.imp fun hlt heq => (ne_of_lt hlt) (congrArg Prod.fst heq)
  have hperm : m.entries.Perm m'.entries :=
    (perm_ext_iff_of_nodup (hnodup m) (hnodup m')).2 hmem
  have heq : m.entries = m'.entries :=
    hperm.eq_of_pairwise (fun a b _ _ hab hba => absurd hab (lt_asymm hba)) m.sorted m'.sorted
  cases m
  cases m'
  cases heq
  rfl

theorem insert_of_lookup (h : m.lookup k = some v) : m.insert k v = m := by
  refine ext_lookup fun k' => ?_
  rw [lookup_insert]
  split_ifs with hk
  · rw [hk, h]
  · rfl

theorem erase_of_lookup_none (h : m.lookup k = none) : m.erase k = m := by
  refine ext_lookup fun k' => ?_
  rw [lookup_erase]
  split_ifs with hk
  · rw [hk, h]
  · rfl

theorem lookup_foldl_insert {l : List (K × V)} (hnodup : (l.map Prod.fst).Nodup) :
    (l.foldl (fun m e => m.insert e.1 e.2) m).lookup k = (l.lookup k).or (m.lookup k) := by
  induction l generalizing m with
  | nil => rfl
  | cons e rest ih =>
    rw [map_cons, nodup_cons] at hnodup
    rw [foldl_cons, ih hnodup.2, lookup_cons_eq, lookup_insert]
    by_cases hk : k = e.1
    · have hrest : rest.lookup k = none := by
        rw [lookup_eq_none_iff]
        intro e' he'
        have hne : e.1 ≠ e'.1 := fun h => hnodup.1 (h ▸ mem_map_of_mem he')
        rw [hk]
        exact bne_iff_ne.2 hne
      rw [hrest, if_pos hk, if_pos hk]
      rfl
    · rw [if_neg hk, if_neg hk]

theorem foldl_insert_entries : m.entries.foldl (fun m e => m.insert e.1 e.2) ∅ = m := by
  refine ext_lookup fun k => ?_
  rw [lookup_foldl_insert m.keys_nodup, lookup_empty, Option.or_none]
  rfl

def keySet (l : List K) : List K := (l.foldl (fun m k => m.insert k ()) (∅ : SortedMap K Unit)).keys

theorem mem_keySet : k ∈ keySet l ↔ k ∈ l := by
  have hfold : ∀ m : SortedMap K Unit,
      k ∈ (l.foldl (fun m k => m.insert k ()) m).keys ↔ k ∈ m.keys ∨ k ∈ l := by
    induction l with
    | nil => intro m; simp
    | cons k' rest ih =>
      intro m
      have hinsert : k ∈ (m.insert k' ()).keys ↔ k = k' ∨ k ∈ m.keys := by
        rw [mem_keys, mem_keys, lookup_insert]
        split_ifs with hk <;> simp [hk]
      rw [foldl_cons, ih, hinsert, mem_cons]
      tauto
  rw [keySet, hfold]
  simp [keys]

theorem eq_empty_of_lookup (h : ∀ k, m.lookup k = none) : m = ∅ :=
  ext_lookup fun k => by rw [h, lookup_empty]

theorem insert_ne_empty : m.insert k v ≠ ∅ := by
  intro h
  have := congrArg (SortedMap.lookup · k) h
  simp at this

end

end SortedMap
