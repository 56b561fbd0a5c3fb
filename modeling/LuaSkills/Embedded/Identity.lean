import Mathlib.Data.Nat.Notation
import Mathlib.Logic.Function.Basic

/-!
# Opaque identities

A runtime renders its sequence numbers as texts. Different numbers of one kind never give one text.
-/

/-- Different numbers have different decimal texts. -/
theorem Nat.decimal_injective : Function.Injective Nat.repr := by
  intro i j h
  have hdigits : Nat.toDigits 10 i = Nat.toDigits 10 j := by
    rw [← Nat.toList_repr, ← Nat.toList_repr, h]
  have hval := congrArg (Nat.ofDigitChars 10 · 0) hdigits
  simpa only [Nat.ofDigitChars_ten_toDigits] using hval

namespace LuaSkills.Embedded

inductive IdentityKind where
  | capacity | pool | session | operation | capability
deriving DecidableEq

def IdentityKind.text : IdentityKind → String
  | .capacity => "capacity"
  | .pool => "pool"
  | .session => "session"
  | .operation => "op"
  | .capability => "cap"

def IdentityKind.render (kind : IdentityKind) (runtimeId : String) (sequence : ℕ) : String :=
  runtimeId ++ (":" ++ (kind.text ++ (":" ++ sequence.repr)))

theorem IdentityKind.render_injective (kind : IdentityKind) (runtimeId : String) :
    Function.Injective (kind.render runtimeId) := by
  intro i j h
  apply Nat.decimal_injective
  unfold render at h
  simpa only [String.append_right_inj] using h

end LuaSkills.Embedded
