import Mathlib.Data.List.Forall2
import Mathlib.Data.Nat.Notation

/-!
# Compact JSON text

The text a compact serializer writes for strings, absent values and records. A string is quoted; the
quote, the backslash and the five named control characters get their short escapes, the other control
characters their four hexadecimal digits, and everything else stands for itself in UTF-8. Sizes are in
bytes.
-/

namespace JsonText

def hexDigit (n : ℕ) : String := if n < 10 then n.repr else ["a", "b", "c", "d", "e", "f"].getD (n - 10) ""

/-- One character inside a quoted string. -/
def escape (c : Char) : String :=
  match c.toNat with
  | 8 => "\\b"
  | 9 => "\\t"
  | 10 => "\\n"
  | 12 => "\\f"
  | 13 => "\\r"
  | 34 => "\\\""
  | 92 => "\\\\"
  | n => if n < 32 then "\\u00" ++ hexDigit (n / 16) ++ hexDigit (n % 16) else String.singleton c

def escapeAll : List Char → String
  | [] => ""
  | c :: rest => escape c ++ escapeAll rest

def string (s : String) : String := "\"" ++ escapeAll s.toList ++ "\""

def optional : Option String → String
  | none => "null"
  | some s => string s

def member (field : String × String) : String := string field.1 ++ ":" ++ field.2

/-- The fields of a record, separated by commas. -/
def members : List (String × String) → String
  | [] => ""
  | [field] => member field
  | field :: rest => member field ++ "," ++ members rest

def object (fields : List (String × String)) : String := "\x7b" ++ members fields ++ "\x7d"

/-! ## Sizes -/

/-- The same field with a text that is not longer. -/
def FieldLE (f g : String × String) : Prop := f.1 = g.1 ∧ f.2.utf8ByteSize ≤ g.2.utf8ByteSize

@[refl] theorem FieldLE.refl (f : String × String) : FieldLE f f := ⟨rfl, Nat.le_refl _⟩

theorem FieldLE.member (h : FieldLE f g) : (member f).utf8ByteSize ≤ (member g).utf8ByteSize := by
  obtain ⟨hkey, hvalue⟩ := h
  simp only [JsonText.member, String.utf8ByteSize_append, hkey]
  omega

theorem members_size_le (h : List.Forall₂ FieldLE l l') :
    (members l).utf8ByteSize ≤ (members l').utf8ByteSize := by
  induction h with
  | nil => exact Nat.le_refl _
  | @cons f g l l' hfg hrest ih =>
    have hmember := hfg.member
    cases hrest with
    | nil => exact hmember
    | cons _ _ =>
      simp only [members, String.utf8ByteSize_append] at ih ⊢
      omega

/-- A record does not get longer when none of its fields does. -/
theorem object_size_le (h : List.Forall₂ FieldLE l l') :
    (object l).utf8ByteSize ≤ (object l').utf8ByteSize := by
  have := members_size_le h
  simp only [object, String.utf8ByteSize_append]
  omega

def items : List String → String
  | [] => ""
  | [item] => item
  | item :: rest => item ++ "," ++ items rest

def array (texts : List String) : String := "[" ++ items texts ++ "]"

theorem items_append_singleton (hl : l ≠ []) : items (l ++ [item]) = items l ++ "," ++ item := by
  induction l with
  | nil => exact absurd rfl hl
  | cons head rest ih =>
    cases rest with
    | nil => rfl
    | cons next rest =>
      have hrest := ih (List.cons_ne_nil _ _)
      simp only [List.cons_append, items] at hrest ⊢
      rw [hrest]
      simp only [String.append_assoc]

end JsonText
