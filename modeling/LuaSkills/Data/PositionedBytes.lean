import Mathlib.Data.Nat.Notation
import Mathlib.Tactic.Common

/-!
# Lists written at a position

A positioned write lays a list over another from a position on, as a write into a buffer or into a file
does. A list that agrees with another outside a range becomes it when the range is written and the
length set.
-/

namespace List
variable {α : Type*}

/-- The list cut or filled up with `z` to the length `n`. -/
def resize (z : α) (xs : List α) (n : ℕ) : List α := xs.take n ++ replicate (n - xs.length) z

/-- `ys` laid over `xs` from `pos` on, where `xs` is long enough. -/
def splice (xs : List α) (pos : ℕ) (ys : List α) : List α :=
  xs.take pos ++ ys ++ xs.drop (pos + ys.length)

/-- `ys` laid over `xs` from `pos` on; a list that is too short is filled up with `z` first. -/
def overlay (z : α) (xs : List α) (pos : ℕ) (ys : List α) : List α :=
  (if pos + ys.length > xs.length then xs.resize z (pos + ys.length) else xs).splice pos ys

variable {z : α} {xs ys : List α} {pos n i : ℕ}

@[simp] theorem length_resize : (xs.resize z n).length = n := by
  simp only [resize, length_append, length_take, length_replicate]
  omega

theorem getElem?_resize :
    (xs.resize z n)[i]? = if i < n then some (xs[i]?.getD z) else none := by
  rw [resize, getElem?_append, length_take, getElem?_replicate]
  split
  next h =>
    rw [getElem?_take_of_lt (by omega), if_pos (by omega), getElem?_eq_getElem (by omega)]
    rfl
  next h =>
    by_cases hi : i < n
    · rw [if_pos (by omega), if_pos hi, getElem?_eq_none (by omega)]
      rfl
    · rw [if_neg (by omega), if_neg hi]

theorem length_splice (h : pos + ys.length ≤ xs.length) : (xs.splice pos ys).length = xs.length := by
  simp only [splice, length_append, length_take, length_drop]
  omega

theorem getElem?_splice (h : pos + ys.length ≤ xs.length) :
    (xs.splice pos ys)[i]? = if pos ≤ i ∧ i < pos + ys.length then ys[i - pos]? else xs[i]? := by
  rw [splice, append_assoc, getElem?_append, length_take, getElem?_append, getElem?_drop]
  have hmin : min pos xs.length = pos := by omega
  rw [hmin]
  rcases Nat.lt_or_ge i pos with hi | hi
  · rw [if_pos hi, if_neg (by omega), getElem?_take_of_lt hi]
  · rw [if_neg (by omega)]
    by_cases hlt : i < pos + ys.length
    · rw [if_pos (by omega), if_pos ⟨hi, hlt⟩]
    · rw [if_neg (by omega), if_neg (by omega)]
      congr 1
      omega

/-! ## Overlays -/

theorem length_overlay : (xs.overlay z pos ys).length = max xs.length (pos + ys.length) := by
  unfold overlay
  split
  next h => rw [length_splice (by simp), length_resize, Nat.max_eq_right (by omega)]
  next h => rw [length_splice (by omega), Nat.max_eq_left (by omega)]

theorem getElem?_overlay :
    (xs.overlay z pos ys)[i]? =
      if pos ≤ i ∧ i < pos + ys.length then ys[i - pos]?
      else if i < pos + ys.length then some (xs[i]?.getD z) else xs[i]? := by
  unfold overlay
  split
  next h =>
    rw [getElem?_splice (by simp), getElem?_resize]
    split
    next => rfl
    next hin =>
      split
      next => rfl
      next hge => rw [getElem?_eq_none (by omega)]
  next h =>
    rw [getElem?_splice (by omega)]
    split
    next => rfl
    next hin =>
      split
      next hlt =>
        rw [getElem?_eq_getElem (by omega)]
        rfl
      next => rfl

/-- An overlay with nothing changes nothing within the list. -/
theorem overlay_nil (h : pos ≤ xs.length) : xs.overlay z pos [] = xs := by
  rw [overlay, if_neg (by simpa using h), splice]
  simp

theorem overlay_length : xs.overlay z xs.length ys = xs ++ ys := by
  apply ext_getElem?
  intro i
  rw [getElem?_overlay, getElem?_append]
  rcases Nat.lt_or_ge i xs.length with hi | hi
  · rw [if_neg (by omega), if_pos (by omega), if_pos hi, getElem?_eq_getElem hi]
    rfl
  · rw [if_neg (Nat.not_lt.2 hi)]
    by_cases hlt : i < xs.length + ys.length
    · rw [if_pos ⟨hi, hlt⟩]
    · rw [if_neg (by omega), if_neg hlt, getElem?_eq_none hi, getElem?_eq_none (by omega)]

/-! ## Agreement outside a range -/

def AgreeOutside (xs ys : List α) (s e : ℕ) : Prop := ∀ i, i < s ∨ e ≤ i → xs[i]? = ys[i]?

namespace AgreeOutside
variable {zs : List α} {s e s' e' : ℕ}

theorem refl : xs.AgreeOutside xs s e := fun _ _ => rfl

theorem mono (h : xs.AgreeOutside ys s e) (hs : s' ≤ s) (he : e ≤ e') : xs.AgreeOutside ys s' e' :=
  fun i hi => h i (by omega)

theorem trans (h : xs.AgreeOutside ys s e) (h' : ys.AgreeOutside zs s e) : xs.AgreeOutside zs s e :=
  fun i hi => (h i hi).trans (h' i hi)

/-- Lists that agree outside an empty range are equal. -/
theorem eq_of_empty (h : xs.AgreeOutside ys s s) : xs = ys :=
  ext_getElem? fun i => h i (by omega)

/-- An overlay within the list or at its end changes only the positions it covers. -/
theorem overlay (h : pos ≤ xs.length) :
    xs.AgreeOutside (xs.overlay z pos ys) pos (pos + ys.length) := by
  intro i hi
  rw [getElem?_overlay, if_neg (by omega)]
  split
  next hlt =>
    rw [getElem?_eq_getElem (by omega)]
    rfl
  next => rfl

/-- A list agrees with its extension up to its end. -/
theorem append : xs.AgreeOutside (xs ++ ys) xs.length (xs ++ ys).length := by
  intro i hi
  rw [length_append] at hi
  rcases hi with hi | hi
  · rw [getElem?_append_left hi]
  · rw [getElem?_eq_none (by omega), getElem?_eq_none (by rw [length_append]; omega)]

theorem le_length (h : xs.AgreeOutside ys s e) (hs : s ≤ ys.length) : s ≤ xs.length := by
  by_contra hlt
  have hlast := h xs.length (.inl (by omega))
  rw [getElem?_eq_none (Nat.le_refl _), getElem?_eq_getElem (by omega)] at hlast
  cases hlast

/-- Writing the range and setting the length makes the first list the second. -/
theorem resize_overlay (h : xs.AgreeOutside ys s e) (hs : s ≤ e) (he : e ≤ ys.length) :
    (xs.overlay z s (ys.extract s e)).resize z ys.length = ys := by
  apply ext_getElem?
  intro i
  have hlen : (ys.extract s e).length = e - s := by
    rw [List.extract_eq_take_drop, length_take, length_drop]
    omega
  rw [getElem?_resize, getElem?_overlay, hlen]
  by_cases hi : i < ys.length
  · rw [if_pos hi, getElem?_eq_getElem hi]
    by_cases hin : s ≤ i ∧ i < e
    · rw [if_pos (by omega), List.extract_eq_take_drop, getElem?_take_of_lt (by omega), getElem?_drop,
        Nat.add_sub_cancel' hin.1, getElem?_eq_getElem hi]
      rfl
    · have hi' : xs[i]? = some ys[i] := by rw [h i (by omega), getElem?_eq_getElem hi]
      rw [if_neg (by omega), hi']
      split <;> rfl
  · rw [if_neg hi, getElem?_eq_none (by omega)]

end AgreeOutside

end List
