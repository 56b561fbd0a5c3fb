import Mathlib.Algebra.BigOperators.Group.Finset.Basic
import Mathlib.Data.Finset.Basic
import Mathlib.Data.Nat.Notation
import Mathlib.Tactic.Common

/-!
# Charges held by shared owners

Several owners may hold the same item; the item is charged once, for as long as one of them remains.
`charge` is the sum over the items that still have an owner. Adding a further owner or removing one
of several costs nothing; the first owner adds the weight of the item and the last one returns it.
-/

namespace Multiset
variable {α : Type} [DecidableEq α] {weight weight' : α → ℕ} {owners : Multiset α} {a : α}

def charge (weight : α → ℕ) (owners : Multiset α) : ℕ := ∑ a ∈ owners.toFinset, weight a

@[simp] theorem charge_zero : charge weight 0 = 0 := by
  simp [charge]

theorem charge_cons_of_mem (h : a ∈ owners) :
    charge weight (a ::ₘ owners) = charge weight owners := by
  rw [charge, toFinset_cons, Finset.insert_eq_of_mem (mem_toFinset.2 h), charge]

theorem charge_cons_of_notMem (h : a ∉ owners) :
    charge weight (a ::ₘ owners) = weight a + charge weight owners := by
  rw [charge, toFinset_cons, Finset.sum_insert (by simpa using h), charge]

theorem charge_congr (h : ∀ a ∈ owners, weight a = weight' a) :
    charge weight owners = charge weight' owners :=
  Finset.sum_congr rfl fun a ha => h a (mem_toFinset.1 ha)

/-- With weight one the charge counts the owned items. -/
theorem charge_one : charge (fun _ => 1) owners = owners.toFinset.card := by
  simp [charge]

end Multiset
