import Mathlib.Algebra.Group.Int.Defs
import Mathlib.Order.Nat
import LuaSkills.Data.Fallible

/-!
# Integers of a machine width as texts

`str::parse` for integers: an optional sign and decimal digits, read from left to right until a
character is no digit or the value leaves the type. Printed integers are read back.
-/

open List Nat

/-- `std::num::IntErrorKind`. -/
inductive IntErrorKind where
  | empty | invalidDigit | posOverflow | negOverflow
deriving DecidableEq, Repr

/-- The message of a parse error. -/
def IntErrorKind.text : IntErrorKind → String
  | .empty => "cannot parse integer from empty string"
  | .invalidDigit => "invalid digit found in string"
  | .posOverflow => "number too large to fit in target type"
  | .negOverflow => "number too small to fit in target type"

/-- Reads digits behind a value, up to a largest magnitude. -/
def readMagnitude (bound : ℕ) (overflow : IntErrorKind) : ℕ → List Char → Except IntErrorKind ℕ
  | n, [] => .ok n
  | n, c :: cs =>
    if c.isDigit then
      let next := n * 10 + (c.toNat - '0'.toNat)
      if next ≤ bound then readMagnitude bound overflow next cs else .error overflow
    else .error .invalidDigit

/-- `parse::<u64>`. -/
def parseU64 (text : String) : Except IntErrorKind ℕ :=
  match text.toList with
  | [] => .error .empty
  | ['+'] => .error .invalidDigit
  | '+' :: digits => readMagnitude (2 ^ 64 - 1) .posOverflow 0 digits
  | digits => readMagnitude (2 ^ 64 - 1) .posOverflow 0 digits

/-- `parse::<i64>`. -/
def parseI64 (text : String) : Except IntErrorKind ℤ :=
  match text.toList with
  | [] => .error .empty
  | ['+'] | ['-'] => .error .invalidDigit
  | '+' :: digits => (readMagnitude (2 ^ 63 - 1) .posOverflow 0 digits).map Int.ofNat
  | '-' :: digits => (readMagnitude (2 ^ 63) .negOverflow 0 digits).map fun n => -Int.ofNat n
  | digits => (readMagnitude (2 ^ 63 - 1) .posOverflow 0 digits).map Int.ofNat

section
variable {bound : ℕ} {overflow : IntErrorKind}

theorem le_ofDigitChars (cs : List Char) (n : ℕ) : n ≤ ofDigitChars 10 cs n := by
  induction cs generalizing n with
  | nil => exact le_refl n
  | cons c cs ih =>
    rw [ofDigitChars_cons]
    have := ih (10 * n + (c.toNat - '0'.toNat))
    omega

/-- Digits of a value within the bound are read. -/
theorem readMagnitude_of_le {cs : List Char} (hdigits : ∀ c ∈ cs, c.isDigit = true)
    (hle : ofDigitChars 10 cs n ≤ bound) :
    readMagnitude bound overflow n cs = .ok (ofDigitChars 10 cs n) := by
  induction cs generalizing n with
  | nil => rfl
  | cons c cs ih =>
    rw [ofDigitChars_cons] at hle ⊢
    have hnext : n * 10 + (c.toNat - '0'.toNat) = 10 * n + (c.toNat - '0'.toNat) := by omega
    have hbound := (le_ofDigitChars cs _).trans hle
    rw [readMagnitude, if_pos (hdigits c mem_cons_self), hnext, if_pos hbound]
    exact ih (fun c hc => hdigits c (mem_cons_of_mem _ hc)) hle

theorem of_readMagnitude (h : readMagnitude bound overflow n cs = .ok m) (hn : n ≤ bound) :
    (∀ c ∈ cs, c.isDigit = true) ∧ m = ofDigitChars 10 cs n ∧ m ≤ bound := by
  induction cs generalizing n with
  | nil =>
    cases h
    exact ⟨fun c hc => absurd hc not_mem_nil, rfl, hn⟩
  | cons c cs ih =>
    rw [readMagnitude] at h
    split at h
    · next hc =>
      dsimp only at h
      split at h
      · next hle =>
        obtain ⟨hdigits, hm, hbound⟩ := ih h hle
        refine ⟨forall_mem_cons.2 ⟨hc, hdigits⟩, ?_, hbound⟩
        rw [hm, Nat.ofDigitChars_cons, Nat.mul_comm]
      · cases h
    · cases h

theorem readMagnitude_repr (h : n ≤ bound) : readMagnitude bound overflow 0 n.repr.toList = .ok n := by
  have hvalue : ofDigitChars 10 n.repr.toList 0 = n := by
    rw [toList_repr, ofDigitChars_ten_toDigits]
  have hdigits : ∀ c ∈ n.repr.toList, c.isDigit = true := by
    rw [toList_repr]
    exact fun c hc => isDigit_of_mem_toDigits (by decide) (by decide) hc
  have hread := @readMagnitude_of_le bound overflow _ _ hdigits (hvalue.le.trans h)
  rwa [hvalue] at hread

end

theorem isDigit_of_mem_repr {n : ℕ} (hc : c ∈ n.repr.toList) : c.isDigit = true :=
  isDigit_of_mem_toDigits (by decide) (by decide) (toList_repr ▸ hc)

/-- Two numbers with a separator between them: the text determines the second. -/
theorem eq_of_separated {c : Char} (hc : c.isDigit = false) {m m' n n' : ℕ}
    (h : m.repr.toList ++ c :: n.repr.toList = m'.repr.toList ++ c :: n'.repr.toList) : n = n' := by
  have hdrop : ∀ m n : ℕ, (m.repr.toList ++ c :: n.repr.toList).dropWhile (· ≠ c) =
      c :: n.repr.toList := by
    intro m n
    have hne : ∀ d ∈ m.repr.toList, (d ≠ c : Bool) = true := by
      intro d hd
      refine decide_eq_true fun heq => ?_
      rw [← heq, isDigit_of_mem_repr hd] at hc
      cases hc
    rw [dropWhile_append_of_pos hne, dropWhile_cons_of_neg (by simp)]
  have htail := (hdrop m n).symm.trans ((congrArg (dropWhile (· ≠ c)) h).trans (hdrop m' n'))
  have htext : n.repr = n'.repr := String.toList_injective (cons.inj htail).2
  have hvalue := congrArg (fun text : String => ofDigitChars 10 text.toList 0) htext
  simpa only [toList_repr, ofDigitChars_ten_toDigits] using hvalue

/-- A printed number starts with a digit. -/
theorem repr_toList_cons (n : ℕ) : ∃ c cs, n.repr.toList = c :: cs ∧ c ≠ '+' ∧ c ≠ '-' := by
  cases h : n.repr.toList with
  | nil => exact absurd (String.toList_eq_nil_iff.1 h) repr_ne_empty
  | cons c cs =>
    have hdigit : c.isDigit = true := by
      have hmem : c ∈ toDigits 10 n := toList_repr ▸ h ▸ mem_cons_self
      exact isDigit_of_mem_toDigits (by decide) (by decide) hmem
    refine ⟨c, cs, rfl, ?_, ?_⟩
    · rintro rfl
      exact absurd hdigit (by decide)
    · rintro rfl
      exact absurd hdigit (by decide)

theorem parseU64_of_digits (hne : text ≠ "") (hdigits : ∀ c ∈ text.toList, c.isDigit = true) :
    parseU64 text = readMagnitude (2 ^ 64 - 1) .posOverflow 0 text.toList := by
  unfold parseU64
  split
  next h => exact absurd (String.toList_eq_nil_iff.1 h) hne
  next h => exact absurd (hdigits '+' (h ▸ mem_cons_self)) (by decide)
  next h => exact absurd (hdigits '+' (h ▸ mem_cons_self)) (by decide)
  next => rfl

theorem parseU64_repr (h : n < 2 ^ 64) : parseU64 n.repr = .ok n := by
  rw [parseU64_of_digits repr_ne_empty, readMagnitude_repr (by omega)]
  rw [toList_repr]
  exact fun c hc => isDigit_of_mem_toDigits (by decide) (by decide) hc

theorem parseI64_of_cons {text : String} {c : Char} (h : text.toList = c :: cs) (hplus : c ≠ '+')
    (hminus : c ≠ '-') :
    parseI64 text = (readMagnitude (2 ^ 63 - 1) .posOverflow 0 text.toList).map Int.ofNat := by
  unfold parseI64
  split
  next h' => cases h.symm.trans h'
  next h' =>
    cases h.symm.trans h'
    exact absurd rfl hplus
  next h' =>
    cases h.symm.trans h'
    exact absurd rfl hminus
  next h' =>
    cases h.symm.trans h'
    exact absurd rfl hplus
  next h' =>
    cases h.symm.trans h'
    exact absurd rfl hminus
  next => rfl

/-- A printed `i64` is read back. -/
theorem parseI64_repr (hmin : -2 ^ 63 ≤ i) (hmax : i < 2 ^ 63) : parseI64 i.repr = .ok i := by
  cases i with
  | ofNat n =>
    obtain ⟨c, cs, hcons, hplus, hminus⟩ := repr_toList_cons n
    have hbound : n ≤ 2 ^ 63 - 1 := by
      have : (n : ℤ) < 2 ^ 63 := hmax
      omega
    change parseI64 n.repr = .ok (Int.ofNat n)
    rw [parseI64_of_cons hcons hplus hminus, readMagnitude_repr hbound]
    rfl
  | negSucc n =>
    obtain ⟨c, cs, hcons, -, -⟩ := repr_toList_cons (n + 1)
    have htext : (Int.negSucc n).repr.toList = '-' :: c :: cs := by
      rw [← hcons]
      simp [Int.repr]
    have hread : readMagnitude (2 ^ 63) .negOverflow 0 (c :: cs) = .ok (n + 1) := by
      rw [← hcons]
      refine readMagnitude_repr ?_
      rw [Int.negSucc_eq] at hmin
      omega
    unfold parseI64
    rw [htext]
    change (readMagnitude (2 ^ 63) .negOverflow 0 (c :: cs)).map _ = _
    rw [hread]
    rfl
