import Mathlib.Data.List.Nodup
import Mathlib.Data.List.TakeDrop
import Mathlib.Logic.Function.Basic

/-!
# Custody

Holders with lists of items, no item in two hands and none twice in one. Items move between holders, are
given to one holder or leave one.
-/

section
variable {ι α : Type} {h : ι → List α} {i j k : ι} {a : α} {l r m t : List α}

/-- Every item is in one hand, once. -/
structure Custody (h : ι → List α) : Prop where
  nodup : ∀ i, (h i).Nodup
  unique : ∀ i j a, a ∈ h i → a ∈ h j → i = j

namespace Custody

open List Function
variable [DecidableEq ι]

theorem update (C : Custody h) (hl : l.Nodup) (hfresh : ∀ a ∈ l, ∀ k, a ∈ h k → k = i) :
    Custody (update h i l) := by
  constructor
  · intro k
    rcases eq_or_ne k i with rfl | hk
    · rwa [update_self]
    · rw [update_of_ne hk]
      exact C.nodup k
  · intro k₁ k₂ a h₁ h₂
    rcases eq_or_ne k₁ i with rfl | hk₁
    · rw [update_self] at h₁
      rcases eq_or_ne k₂ k₁ with rfl | hk₂
      · rfl
      · rw [update_of_ne hk₂] at h₂
        exact (hfresh a h₁ k₂ h₂).symm
    · rw [update_of_ne hk₁] at h₁
      rcases eq_or_ne k₂ i with rfl | hk₂
      · rw [update_self] at h₂
        exact hfresh a h₂ k₁ h₁
      · rw [update_of_ne hk₂] at h₂
        exact C.unique k₁ k₂ a h₁ h₂

/-- A new item comes into a hand. -/
theorem give (C : Custody h) (hnew : ∀ k, a ∉ h k) (htarget : t.Perm (h i ++ [a])) :
    Custody (Function.update h i t) := by
  refine C.update ?_ fun b hb k hk => ?_
  · rw [htarget.nodup_iff]
    exact Nodup.append (C.nodup i) (nodup_singleton a)
      (disjoint_singleton.2 (hnew i))
  · rcases mem_append.1 (htarget.mem_iff.1 hb) with hb | hb
    · exact C.unique k i b hk hb
    · cases mem_singleton.1 hb
      exact (hnew k hk).elim

/-- Items move from one hand to another. -/
theorem move (C : Custody h) (hij : i ≠ j) (hrest : (r ++ m).Perm (h i))
    (htarget : t.Perm (h j ++ m)) :
    Custody (Function.update (Function.update h i r) j t) := by
  have hnodup : (r ++ m).Nodup := hrest.nodup_iff.2 (C.nodup i)
  have hrest' : ∀ a ∈ r, a ∈ h i := fun a ha => hrest.mem_iff.1 (mem_append_left _ ha)
  have hmoved : ∀ a ∈ m, a ∈ h i := fun a ha => hrest.mem_iff.1 (mem_append_right _ ha)
  have C₁ : Custody (Function.update h i r) :=
    C.update (Nodup.of_append_left hnodup) fun a ha k hk => C.unique k i a hk (hrest' a ha)
  refine C₁.update ?_ fun a ha k hk => ?_
  · rw [htarget.nodup_iff]
    exact Nodup.append (C.nodup j) (Nodup.of_append_right hnodup) fun a ha ha' =>
      hij (C.unique i j a (hmoved a ha') ha)
  · rcases mem_append.1 (htarget.mem_iff.1 ha) with ha | ha
    · rcases eq_or_ne k i with rfl | hki
      · rw [update_self] at hk
        exact C.unique k j a (hrest' a hk) ha
      · rw [update_of_ne hki] at hk
        exact C.unique k j a hk ha
    · rcases eq_or_ne k i with rfl | hki
      · rw [update_self] at hk
        exact (disjoint_of_nodup_append hnodup hk ha).elim
      · rw [update_of_ne hki] at hk
        exact (hki (C.unique k i a hk (hmoved a ha))).elim

/-- What a move leaves in some hand was in some hand, and conversely. -/
theorem mem_move (hij : i ≠ j) (hrest : (r ++ m).Perm (h i)) (htarget : t.Perm (h j ++ m)) :
    (∃ k, a ∈ Function.update (Function.update h i r) j t k) ↔ ∃ k, a ∈ h k := by
  constructor
  · rintro ⟨k, hk⟩
    rcases eq_or_ne k j with rfl | hkj
    · rw [update_self] at hk
      rcases mem_append.1 (htarget.mem_iff.1 hk) with hk | hk
      · exact ⟨k, hk⟩
      · exact ⟨i, hrest.mem_iff.1 (mem_append_right _ hk)⟩
    · rw [update_of_ne hkj] at hk
      rcases eq_or_ne k i with rfl | hki
      · rw [update_self] at hk
        exact ⟨k, hrest.mem_iff.1 (mem_append_left _ hk)⟩
      · rw [update_of_ne hki] at hk
        exact ⟨k, hk⟩
  · rintro ⟨k, hk⟩
    rcases eq_or_ne k j with rfl | hkj
    · refine ⟨k, ?_⟩
      rw [update_self]
      exact htarget.mem_iff.2 (mem_append_left _ hk)
    · rcases eq_or_ne k i with rfl | hki
      · rcases mem_append.1 (hrest.mem_iff.2 hk) with hk | hk
        · refine ⟨k, ?_⟩
          rw [update_of_ne hij, update_self]
          exact hk
        · refine ⟨j, ?_⟩
          rw [update_self]
          exact htarget.mem_iff.2 (mem_append_right _ hk)
      · refine ⟨k, ?_⟩
        rw [update_of_ne hkj, update_of_ne hki]
        exact hk

end Custody

end

/-! ## Numbered items -/

section
variable {ι : Type} {h : ι → List ℕ} {n : ℕ} {gone gone' : ℕ → Prop} {i j : ι} {r m t : List ℕ}

/-- Of the items numbered below `n`, each is in one hand, once, or is gone. -/
structure Conserved (h : ι → List ℕ) (n : ℕ) (gone : ℕ → Prop) : Prop where
  custody : Custody h
  allocated : ∀ i, ∀ a ∈ h i, a < n
  kept : ∀ a, a < n → gone a ∨ ∃ i, a ∈ h i

namespace Conserved

theorem mono (C : Conserved h n gone) (hgone : ∀ a, gone a → gone' a) : Conserved h n gone' where
  custody := C.custody
  allocated := C.allocated
  kept a ha := (C.kept a ha).imp_left (hgone a)

/-- An item that is in a hand is there once, and in no other. -/
theorem existsUnique (C : Conserved h n gone) (ha : a < n) (hgone : ¬ gone a) : ∃! i, a ∈ h i := by
  obtain ⟨i, hi⟩ := (C.kept a ha).resolve_left hgone
  exact ⟨i, hi, fun j hj => C.custody.unique j i a hj hi⟩

variable [DecidableEq ι]

theorem perm (C : Conserved h n gone) (htarget : t.Perm (h i)) :
    Conserved (Function.update h i t) n gone := by
  have hmem : ∀ k a, a ∈ Function.update h i t k ↔ a ∈ h k := by
    intro k a
    rcases eq_or_ne k i with rfl | hk
    · rw [Function.update_self]
      exact htarget.mem_iff
    · rw [Function.update_of_ne hk]
  refine ⟨C.custody.update (htarget.nodup_iff.2 (C.custody.nodup i)) fun a ha k hk =>
    C.custody.unique k i a hk (htarget.mem_iff.1 ha), fun k a ha => C.allocated k a ((hmem k a).1 ha),
    fun a ha => (C.kept a ha).imp_right fun ⟨k, hk⟩ => ⟨k, (hmem k a).2 hk⟩⟩

/-- The next number is given out. -/
theorem give (C : Conserved h n gone) (htarget : t.Perm (h i ++ [n])) :
    Conserved (Function.update h i t) (n + 1) gone := by
  refine ⟨C.custody.give (fun k hk => Nat.lt_irrefl n (C.allocated k n hk)) htarget, fun k a ha => ?_,
    fun a ha => ?_⟩
  · rcases eq_or_ne k i with rfl | hk
    · rw [Function.update_self] at ha
      rcases List.mem_append.1 (htarget.mem_iff.1 ha) with ha | ha
      · exact Nat.lt_succ_of_lt (C.allocated k a ha)
      · exact Nat.lt_succ_of_le (Nat.le_of_eq (List.mem_singleton.1 ha))
    · rw [Function.update_of_ne hk] at ha
      exact Nat.lt_succ_of_lt (C.allocated k a ha)
  · have hgiven : ∀ k, a ∈ h k → ∃ k, a ∈ Function.update h i t k := by
      intro k hk
      rcases eq_or_ne k i with rfl | hne
      · exact ⟨k, by rw [Function.update_self]; exact htarget.mem_iff.2 (List.mem_append_left _ hk)⟩
      · exact ⟨k, by rwa [Function.update_of_ne hne]⟩
    rcases Nat.lt_succ_iff_lt_or_eq.1 ha with ha | rfl
    · exact (C.kept a ha).imp_right fun ⟨k, hk⟩ => hgiven k hk
    · refine .inr ⟨i, ?_⟩
      rw [Function.update_self]
      exact htarget.mem_iff.2 (List.mem_append_right _ (List.mem_singleton_self a))

theorem move (C : Conserved h n gone) (hij : i ≠ j) (hrest : (r ++ m).Perm (h i))
    (htarget : t.Perm (h j ++ m)) :
    Conserved (Function.update (Function.update h i r) j t) n gone := by
  refine ⟨C.custody.move hij hrest htarget, fun k a ha => ?_, fun a ha => ?_⟩
  · obtain ⟨k', hk'⟩ := (Custody.mem_move hij hrest htarget).1 ⟨k, ha⟩
    exact C.allocated k' a hk'
  · exact (C.kept a ha).imp_right fun hk => (Custody.mem_move hij hrest htarget).2 hk

theorem leave (C : Conserved h n gone) (hrest : (r ++ m).Perm (h i)) (hgone : ∀ a ∈ m, gone a) :
    Conserved (Function.update h i r) n gone := by
  have hsub : ∀ a ∈ r, a ∈ h i := fun a ha => hrest.mem_iff.1 (List.mem_append_left _ ha)
  refine ⟨C.custody.update (List.Nodup.of_append_left (hrest.nodup_iff.2 (C.custody.nodup i))) fun a ha k hk =>
    C.custody.unique k i a hk (hsub a ha), fun k a ha => ?_, fun a ha => ?_⟩
  · rcases eq_or_ne k i with rfl | hk
    · rw [Function.update_self] at ha
      exact C.allocated k a (hsub a ha)
    · rw [Function.update_of_ne hk] at ha
      exact C.allocated k a ha
  · rcases C.kept a ha with hg | ⟨k, hk⟩
    · exact .inl hg
    · rcases eq_or_ne k i with rfl | hki
      · rcases List.mem_append.1 (hrest.mem_iff.2 hk) with hk | hk
        · refine .inr ⟨k, ?_⟩
          rwa [Function.update_self]
        · exact .inl (hgone a hk)
      · refine .inr ⟨k, ?_⟩
        rwa [Function.update_of_ne hki]

end Conserved

end

/-! ## Removal by exchange with the last -/

section
variable {α : Type} {l : List α} {n : ℕ} {a : α}

/-- The element at `n` is dropped and the last one takes its place. -/
def List.swapRemove (l : List α) (n : ℕ) : List α :=
  match l.getLast? with
  | some last => (l.set n last).dropLast
  | none => []

theorem List.perm_swapRemove (h : l[n]? = some a) : l.Perm (a :: l.swapRemove n) := by
  obtain ⟨hn, rfl⟩ := getElem?_eq_some_iff.1 h
  rcases eq_nil_or_concat l with rfl | ⟨init, last, rfl⟩
  · simp at hn
  · simp only [concat_eq_append] at hn ⊢
    have hswap : (init ++ [last]).swapRemove n = ((init ++ [last]).set n last).dropLast := by
      simp [swapRemove]
    rw [hswap]
    rcases Nat.lt_or_ge n init.length with hlt | hge
    · rw [set_append_left _ _ hlt, dropLast_concat, getElem_append_left hlt,
        set_eq_take_append_cons_drop, if_pos hlt]
      calc init ++ [last]
          = init.take n ++ (init[n] :: (init.drop (n + 1) ++ [last])) := by
            rw [← cons_append, ← append_assoc, getElem_cons_drop, take_append_drop]
        _ |>.Perm (init[n] :: (init.take n ++ (init.drop (n + 1) ++ [last]))) := perm_middle
        _ |>.Perm (init[n] :: (init.take n ++ (last :: init.drop (n + 1)))) :=
            ((perm_append_singleton last _).append_left _).cons _
    · obtain rfl : n = init.length := by
        rw [length_append, length_singleton] at hn
        omega
      simp only [set_append_right _ _ hge, Nat.sub_self, set_cons_zero, dropLast_concat,
        getElem_append_right hge, getElem_singleton]
      exact perm_append_singleton last init

end
