import Mathlib.Algebra.BigOperators.Group.Finset.Piecewise
import Mathlib.Algebra.Order.BigOperators.Group.Finset

/-!
# Guaranteed shares of one limit

Several owners draw units from one common limit. Each owner holds some units (`usage`) and is
promised a minimum (`guarantee`) that nobody else may borrow. The books are kept by charging every
owner the larger of the two; the ledger is `Solvent` when those charges fit the limit.

An owner that asks for a further unit is charged only what it holds, since it may consume its own
promise (`committed (some i)`). `Solvent.acquire` shows that this test is safe, and
`Solvent.redeemable` that it can never refuse an owner that is still below its promise.
-/

structure GuaranteeLedger (ι : Type*) where
  owners : Finset ι
  guarantee : ι → ℕ
  usage : ι → ℕ

namespace GuaranteeLedger
open Finset Function

section
variable {ι : Type*} [DecidableEq ι] {L : GuaranteeLedger ι} {i j : ι} {g limit : ℕ}

/-- What `i` costs while `req`, if any, is consuming its own promise. -/
def charge (L : GuaranteeLedger ι) (req : Option ι) (i : ι) : ℕ :=
  if req = some i then L.usage i else max (L.usage i) (L.guarantee i)

def committed (L : GuaranteeLedger ι) (req : Option ι) : ℕ := ∑ i ∈ L.owners, L.charge req i

/-- The promises and holdings fit together into `limit`. -/
def Solvent (L : GuaranteeLedger ι) (limit : ℕ) : Prop := L.committed none ≤ limit

def enroll (L : GuaranteeLedger ι) (i : ι) (g : ℕ) : GuaranteeLedger ι :=
  { L with owners := insert i L.owners, guarantee := update L.guarantee i g }

def dismiss (L : GuaranteeLedger ι) (i : ι) : GuaranteeLedger ι :=
  { L with owners := L.owners.erase i }

def revise (L : GuaranteeLedger ι) (i : ι) (g : ℕ) : GuaranteeLedger ι :=
  { L with guarantee := update L.guarantee i g }

def acquire (L : GuaranteeLedger ι) (i : ι) : GuaranteeLedger ι :=
  { L with usage := update L.usage i (L.usage i + 1) }

/-- `i` gives one unit back. -/
def release (L : GuaranteeLedger ι) (i : ι) : GuaranteeLedger ι :=
  { L with usage := update L.usage i (L.usage i - 1) }

@[simp] theorem charge_none : L.charge none i = max (L.usage i) (L.guarantee i) := by
  simp [charge]

@[simp] theorem charge_self : L.charge (some i) i = L.usage i := by simp [charge]

theorem charge_ne (h : i ≠ j) : L.charge (some i) j = L.charge none j := by
  simp [charge, h]

/-- The charge of everyone but `i`. -/
def others (L : GuaranteeLedger ι) (i : ι) : ℕ := ∑ j ∈ L.owners.erase i, L.charge none j

theorem committed_none_eq (h : i ∈ L.owners) :
    L.committed none = max (L.usage i) (L.guarantee i) + L.others i := by
  rw [committed, ← add_sum_erase _ _ h, charge_none, others]

theorem committed_some_eq (h : i ∈ L.owners) :
    L.committed (some i) = L.usage i + L.others i := by
  rw [committed, ← add_sum_erase _ _ h, charge_self, others]
  congr 1
  exact sum_congr rfl fun j hj => charge_ne (ne_of_mem_erase hj).symm

theorem committed_some_le (i : ι) : L.committed (some i) ≤ L.committed none := by
  refine sum_le_sum fun j _ => ?_
  rw [charge_none, charge]
  split
  · exact le_max_left ..
  · exact le_rfl

theorem others_congr {L' : GuaranteeLedger ι} (ho : L'.owners.erase i = L.owners.erase i)
    (hg : ∀ j, j ≠ i → L'.guarantee j = L.guarantee j)
    (hu : ∀ j, j ≠ i → L'.usage j = L.usage j) : L'.others i = L.others i := by
  unfold others
  rw [ho]
  refine sum_congr rfl fun j hj => ?_
  rw [charge_none, charge_none, hg j (ne_of_mem_erase hj), hu j (ne_of_mem_erase hj)]

theorem sum_usage_le_committed : ∑ i ∈ L.owners, L.usage i ≤ L.committed none :=
  sum_le_sum fun i _ => by rw [charge_none]; exact le_max_left ..

theorem charge_le_committed (h : i ∈ L.owners) :
    max (L.usage i) (L.guarantee i) ≤ L.committed none := by
  rw [committed_none_eq h]
  exact Nat.le_add_right ..

theorem committed_enroll (h : i ∉ L.owners) (hu : L.usage i = 0) :
    (L.enroll i g).committed none = g + L.committed none := by
  have hi : i ∈ (L.enroll i g).owners := mem_insert_self ..
  have ho : (L.enroll i g).others i = L.others i := by
    refine others_congr ?_ (fun j hj => update_of_ne hj ..) fun _ _ => rfl
    rw [enroll, erase_insert_eq_erase]
  rw [committed_none_eq hi, ho]
  have : L.others i = L.committed none := by rw [others, committed, erase_eq_of_notMem h]
  simp [enroll, hu, this]

theorem committed_revise (h : i ∈ L.owners) :
    (L.revise i g).committed none = max (L.usage i) g + L.others i := by
  have ho : (L.revise i g).others i = L.others i :=
    others_congr rfl (fun j hj => update_of_ne hj ..) fun _ _ => rfl
  rw [committed_none_eq (L := L.revise i g) h, ho]
  simp [revise]

theorem committed_acquire (h : i ∈ L.owners) :
    (L.acquire i).committed none = max (L.usage i + 1) (L.guarantee i) + L.others i := by
  have ho : (L.acquire i).others i = L.others i :=
    others_congr rfl (fun _ _ => rfl) fun j hj => update_of_ne hj ..
  rw [committed_none_eq (L := L.acquire i) h, ho]
  simp [acquire]

/-- The same books, as far as the listed owners go. -/
structure Agrees (L L' : GuaranteeLedger ι) : Prop where
  owners : L.owners = L'.owners
  guarantee : ∀ i ∈ L.owners, L.guarantee i = L'.guarantee i
  usage : ∀ i ∈ L.owners, L.usage i = L'.usage i

namespace Solvent

theorem of_agrees {L' : GuaranteeLedger ι} (H : L.Solvent limit) (h : L'.Agrees L) :
    L'.Solvent limit := by
  refine le_of_eq_of_le ?_ H
  unfold committed
  rw [← h.owners]
  refine sum_congr rfl fun i hi => ?_
  rw [charge_none, charge_none, h.guarantee i hi, h.usage i hi]

theorem enroll (H : L.Solvent limit) (h : i ∉ L.owners) (hu : L.usage i = 0)
    (hg : g ≤ limit - L.committed none) : (L.enroll i g).Solvent limit := by
  unfold Solvent at *
  rw [committed_enroll h hu]
  omega

theorem dismiss (H : L.Solvent limit) : (L.dismiss i).Solvent limit :=
  (sum_le_sum_of_subset (erase_subset ..)).trans H

/-- The test of a revision: take the old charge out, put the new one in. -/
theorem revise (h : i ∈ L.owners)
    (hg : L.committed none - max (L.usage i) (L.guarantee i) + max (L.usage i) g ≤ limit) :
    (L.revise i g).Solvent limit := by
  unfold Solvent
  rw [committed_revise h]
  rw [committed_none_eq h] at hg
  omega

/-- A unit granted while the requester's charge is below the limit keeps the books solvent:
below its promise the charge does not move, above it the test has room for one. -/
theorem acquire (H : L.Solvent limit) (h : i ∈ L.owners) (hlt : L.committed (some i) < limit) :
    (L.acquire i).Solvent limit := by
  unfold Solvent at *
  rw [committed_acquire h]
  rw [committed_none_eq h] at H
  rw [committed_some_eq h] at hlt
  omega

theorem release (H : L.Solvent limit) : (L.release i).Solvent limit := by
  refine le_trans (sum_le_sum fun j _ => ?_) H
  rw [charge_none, charge_none]
  refine max_le_max_right _ ?_
  by_cases hj : j = i
  · subst hj
    simp [GuaranteeLedger.release]
  · simp [GuaranteeLedger.release, update_of_ne hj]

/-- An owner below its promise always passes the test for one more unit. -/
theorem redeemable (H : L.Solvent limit) (h : i ∈ L.owners) (hlt : L.usage i < L.guarantee i) :
    L.committed (some i) < limit := by
  unfold Solvent at H
  rw [committed_none_eq h] at H
  rw [committed_some_eq h]
  omega

end Solvent

end

end GuaranteeLedger
