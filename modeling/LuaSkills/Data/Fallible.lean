import Mathlib.Algebra.GroupWithZero.Nat
import Mathlib.Data.Option.Basic

/-!
# Fallible computations

Inversion lemmas for straight-line `Except` programs: guards (`refuseIf`), lookups (`okOr`) and
checked arithmetic at a word size. A program made of these is peeled apart by `simp only` with the
`_eq_ok` lemmas when it returned a value, and with the `_eq_error` lemmas when it did not.
-/

open List Except

section
variable {ε α β : Type}

/-- Stops with `e` when `c` holds. -/
def refuseIf (c : Prop) [Decidable c] (e : ε) : Except ε Unit :=
  if c then .error e else .ok ()

def okOr (o : Option α) (e : ε) : Except ε α :=
  match o with
  | some a => .ok a
  | none => .error e

theorem Except.bind_eq_ok {x : Except ε α} {f : α → Except ε β} {b : β} :
    (x >>= f) = .ok b ↔ ∃ a, x = .ok a ∧ f a = .ok b := by
  cases x with
  | error e | ok a => simp [bind, Except.bind]

theorem Except.bind_eq_error {x : Except ε α} {f : α → Except ε β} {e : ε} :
    (x >>= f) = .error e ↔ x = .error e ∨ ∃ a, x = .ok a ∧ f a = .error e := by
  cases x with
  | error e | ok a => simp [bind, Except.bind]

theorem Except.map_eq_ok {x : Except ε α} {f : α → β} {b : β} :
    f <$> x = .ok b ↔ ∃ a, x = .ok a ∧ f a = b := by
  cases x <;> simp [Functor.map, Except.map]

theorem Except.ok_bind {a : α} {f : α → Except ε β} : (ok a >>= f) = f a := rfl

theorem Except.pure_eq_ok {a : α} : (pure a : Except ε α) = .ok a := rfl

section
variable {c : Prop} [Decidable c] {e e' : ε}

@[simp] theorem refuseIf_eq_ok : refuseIf c e = .ok u ↔ ¬ c := by
  unfold refuseIf
  split <;> simp_all

@[simp] theorem refuseIf_eq_error : refuseIf c e = .error e' ↔ c ∧ e = e' := by
  unfold refuseIf
  split <;> simp_all

theorem refuseIf_bind_eq_ok {f : Unit → Except ε α} {a : α} :
    (refuseIf c e >>= f) = .ok a ↔ ¬ c ∧ f () = .ok a := by
  rw [bind_eq_ok]
  exact ⟨fun ⟨_, h, hf⟩ => ⟨refuseIf_eq_ok.1 h, hf⟩, fun ⟨h, hf⟩ => ⟨(), if_neg h, hf⟩⟩

theorem refuseIf_of_not (h : ¬ c) : refuseIf c e = .ok () := if_neg h

end

@[simp] theorem okOr_eq_ok {o : Option α} {e : ε} {a : α} : okOr o e = .ok a ↔ o = some a := by
  cases o <;> simp [okOr]

@[simp] theorem okOr_eq_error {o : Option α} {e e' : ε} :
    okOr o e = .error e' ↔ o = none ∧ e = e' := by
  cases o <;> simp [okOr]

@[simp] theorem okOr_some {e : ε} {a : α} : okOr (some a) e = .ok a := rfl

/-- A scan passes when each of its checks does. -/
theorem forM_eq_ok {x : α → Except ε Unit} {l : List α} (h : ∀ a ∈ l, x a = .ok ()) :
    l.forM x = .ok () := by
  induction l with
  | nil => rfl
  | cons a l ih =>
    unfold List.forM
    rw [h a mem_cons_self]
    exact ih fun b hb => h b (mem_cons_of_mem a hb)

/-- In a scan that passes, each check does. -/
theorem forall_of_forM_eq_ok {x : α → Except ε Unit} {l : List α} (h : l.forM x = .ok ()) :
    ∀ a ∈ l, x a = .ok () := by
  induction l with
  | nil => exact fun a ha => nomatch ha
  | cons a l ih =>
    unfold List.forM at h
    obtain ⟨_, ha, hl⟩ := bind_eq_ok.1 h
    exact forall_mem_cons.2 ⟨ha, ih hl⟩

end

/-! ## Word arithmetic -/

/-- One more than the largest 64-bit unsigned value: `u64`, and `usize` on a 64-bit target. -/
def wordBound : ℕ := 2 ^ 64

/-- Addition that reports overflow. -/
def checkedAdd (a b : ℕ) : Option ℕ := if a + b < wordBound then some (a + b) else none

/-- Subtraction that reports a negative result. -/
def checkedSub (a b : ℕ) : Option ℕ := if b ≤ a then some (a - b) else none

@[simp] theorem checkedAdd_eq_some : checkedAdd a b = some c ↔ a + b < wordBound ∧ c = a + b := by
  unfold checkedAdd
  split <;> simp_all [eq_comm]

@[simp] theorem checkedSub_eq_some : checkedSub a b = some c ↔ b ≤ a ∧ c = a - b := by
  unfold checkedSub
  split <;> simp_all [eq_comm]

theorem checkedAdd_of_lt (h : a + b < wordBound) : checkedAdd a b = some (a + b) :=
  if_pos h

theorem checkedSub_of_le (h : b ≤ a) : checkedSub a b = some (a - b) := if_pos h

section
variable {ε α : Type} {f : ℕ → α → Except ε ℕ} {w : α → ℕ} {l : List α} {a n : ℕ}

/-- A loop that adds `w` with an overflow check computes the sum when the sum is a word. -/
theorem foldlM_checked (hf : ∀ c x, c + w x < wordBound → f c x = .ok (c + w x))
    (h : a + (l.map w).sum < wordBound) : l.foldlM f a = .ok (a + (l.map w).sum) := by
  induction l generalizing a with
  | nil => rfl
  | cons x l ih =>
    simp only [map_cons, sum_cons] at h ⊢
    rw [foldlM_cons, hf a x (by omega), ok_bind, ih (by omega), Nat.add_assoc]

theorem foldlM_checked_eq_ok (hf : ∀ c x n, f c x = .ok n → n = c + w x)
    (h : l.foldlM f a = .ok n) : n = a + (l.map w).sum := by
  induction l generalizing a with
  | nil =>
    cases h
    rfl
  | cons x l ih =>
    rw [foldlM_cons, bind_eq_ok] at h
    obtain ⟨b, hb, h⟩ := h
    rw [ih h, hf a x b hb, map_cons, sum_cons, Nat.add_assoc]

end
