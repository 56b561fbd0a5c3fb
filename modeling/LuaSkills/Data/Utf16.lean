import Mathlib.Data.List.Basic
import Mathlib.Data.Char

/-!
# UTF-16

Texts as sequences of 16-bit units. An ASCII character is one unit with its own number, and the units
of the other characters are not ASCII; so looking for ASCII characters is the same in both forms.
-/

namespace Utf16

open List

variable {u : UInt16} {text : List Char}

def encodeChar (c : Char) : List UInt16 :=
  if c.toNat < 0x10000 then [UInt16.ofNat c.toNat]
  else [UInt16.ofNat (0xD800 + (c.toNat - 0x10000) / 0x400),
    UInt16.ofNat (0xDC00 + (c.toNat - 0x10000) % 0x400)]

def encode (text : List Char) : List UInt16 := text.flatMap encodeChar

def unit (c : Char) : UInt16 := UInt16.ofNat c.toNat

/-- `String::from_utf16_lossy`: a surrogate without its partner becomes the replacement character. -/
def decodeLossy : List UInt16 → List Char
  | [] => []
  | [u] => [single u]
  | u :: v :: rest =>
    if 0xD800 ≤ u.toNat ∧ u.toNat < 0xDC00 ∧ 0xDC00 ≤ v.toNat ∧ v.toNat < 0xE000 then
      Char.ofNat (0x10000 + (u.toNat - 0xD800) * 0x400 + (v.toNat - 0xDC00)) :: decodeLossy rest
    else single u :: decodeLossy (v :: rest)
where
  single (u : UInt16) : Char :=
    if 0xD800 ≤ u.toNat ∧ u.toNat < 0xE000 then Char.ofNat 0xFFFD else Char.ofNat u.toNat

@[simp] theorem encode_nil : encode [] = [] := rfl

theorem encode_cons (c : Char) (text : List Char) : encode (c :: text) = encodeChar c ++ encode text :=
  rfl

theorem toNat_ofNat {n : ℕ} (h : n < 0x10000) : (UInt16.ofNat n).toNat = n :=
  UInt16.toNat_ofNat_of_lt h

theorem encodeChar_of_ascii {c : Char} (h : c.toNat < 128) : encodeChar c = [unit c] :=
  if_pos (by omega)

theorem encode_cons_ascii {c : Char} (h : c.toNat < 128) (text : List Char) :
    encode (c :: text) = unit c :: encode text := by
  rw [encode_cons, encodeChar_of_ascii h]
  rfl

/-- The units of the other characters are above the ASCII range. -/
theorem le_of_mem_encodeChar {c : Char} (h : 128 ≤ c.toNat) (hu : u ∈ encodeChar c) :
    128 ≤ u.toNat := by
  have hmax : c.toNat < 0x110000 := by
    rcases c.valid with h | h
    · exact Nat.lt_trans h (by decide)
    · exact h.2
  unfold encodeChar at hu
  split at hu
  next hlt =>
    rw [mem_singleton.1 hu, toNat_ofNat hlt]
    exact h
  next hle =>
    rcases mem_cons.1 hu with rfl | hu
    · rw [toNat_ofNat (by omega)]
      omega
    · rw [mem_singleton.1 hu, toNat_ofNat (by omega)]
      omega

theorem encodeChar_ne_nil (c : Char) : encodeChar c ≠ [] := by
  unfold encodeChar
  split <;> exact cons_ne_nil _ _

theorem encode_eq_nil : encode text = [] ↔ text = [] := by
  cases text with
  | nil => exact ⟨fun _ => rfl, fun _ => rfl⟩
  | cons c rest =>
    rw [encode_cons, append_eq_nil_iff]
    exact ⟨fun h => absurd h.1 (encodeChar_ne_nil c), fun h => nomatch h⟩

theorem toNat_unit {c : Char} (h : c.toNat < 128) : (unit c).toNat = c.toNat := toNat_ofNat (by omega)

/-- A unit in the ASCII range at the front is the first character. -/
theorem encode_eq_cons (hu : u.toNat < 128) (h : encode text = u :: us) :
    ∃ c rest, text = c :: rest ∧ c.toNat = u.toNat ∧ encode rest = us := by
  cases text with
  | nil => cases h
  | cons c rest =>
    have hascii : c.toNat < 128 := by
      by_contra hle
      obtain ⟨v, vs, hv⟩ := exists_cons_of_ne_nil (encodeChar_ne_nil c)
      rw [encode_cons, hv] at h
      have hmem : u ∈ encodeChar c := by
        rw [hv, (cons.inj h).1]
        exact mem_cons_self
      have := le_of_mem_encodeChar (by omega) hmem
      omega
    rw [encode_cons_ascii hascii] at h
    obtain ⟨hhead, htail⟩ := cons.inj h
    exact ⟨c, rest, rfl, by rw [← hhead, toNat_unit hascii], htail⟩

theorem unit_inj {c d : Char} (hc : c.toNat < 128) (hd : d.toNat < 128) (h : unit c = unit d) :
    c = d := by
  have hnat := congrArg UInt16.toNat h
  rw [toNat_unit hc, toNat_unit hd] at hnat
  exact Char.toNat_inj.1 hnat

/-- An ASCII character is in a text when its unit is. -/
theorem unit_mem_encode {d : Char} (hd : d.toNat < 128) :
    unit d ∈ encode text ↔ d ∈ text := by
  induction text with
  | nil => simp
  | cons c rest ih =>
    rw [encode_cons, mem_append, ih, mem_cons]
    refine or_congr ?_ Iff.rfl
    by_cases hc : c.toNat < 128
    · rw [encodeChar_of_ascii hc, mem_singleton]
      exact ⟨unit_inj hd hc, fun h => by rw [h]⟩
    · constructor
      · intro hmem
        have := le_of_mem_encodeChar (Nat.not_lt.1 hc) hmem
        rw [toNat_unit hd] at this
        omega
      · rintro rfl
        exact absurd hd hc

theorem splitOn_append {α : Type} [DecidableEq α] {d : α} {us : List α} (hus : d ∉ us) (l : List α) :
    (us ++ l).splitOn d = (l.splitOn d).modifyHead (us ++ ·) := by
  induction us with
  | nil => cases hsplit : l.splitOn d <;> simp [hsplit]
  | cons u us ih =>
    rw [mem_cons, not_or] at hus
    rw [cons_append, splitOn_cons_eq_if_modifyHead, if_neg (by simpa using Ne.symm hus.1),
      ih hus.2]
    cases l.splitOn d <;> simp

/-- A list that does not end in the separator has a last part that is not empty. -/
theorem getLast?_splitOn {α : Type} [DecidableEq α] {c d : α} (hne : c ≠ d) (l : List α) :
    ∃ part, ((l ++ [c]).splitOn d).getLast? = some (part ++ [c]) := by
  induction l with
  | nil =>
    refine ⟨[], ?_⟩
    rw [nil_append, splitOn_eq_singleton (by simpa using hne.symm)]
    rfl
  | cons x l ih =>
    obtain ⟨part, hpart⟩ := ih
    rw [cons_append, splitOn_cons_eq_if_modifyHead]
    cases hsplit : (l ++ [c]).splitOn d with
    | nil => exact absurd hsplit (splitOn_ne_nil d _)
    | cons first rest =>
      rw [hsplit] at hpart
      split
      · exact ⟨part, by rw [getLast?_cons_cons, hpart]⟩
      · cases rest with
        | nil =>
          cases hpart
          exact ⟨x :: part, rfl⟩
        | cons second rest =>
          refine ⟨part, ?_⟩
          rw [getLast?_cons_cons] at hpart
          rw [modifyHead_cons, getLast?_cons_cons, hpart]

/-- A text is split at an ASCII character where its units are. -/
theorem splitOn_encode {d : Char} (hd : d.toNat < 128) (text : List Char) :
    (encode text).splitOn (unit d) = (text.splitOn d).map encode := by
  induction text with
  | nil => rfl
  | cons c rest ih =>
    rw [splitOn_cons_eq_if_modifyHead]
    by_cases hc : c = d
    · subst hc
      rw [if_pos (beq_self_eq_true c), encode_cons_ascii hd, splitOn_cons_eq_if_modifyHead,
        if_pos (beq_self_eq_true _), ih]
      rfl
    · have hmem : unit d ∉ encodeChar c := by
        intro hmem
        have hc' : unit d ∈ encode [c] := by
          rw [encode_cons]
          exact mem_append_left _ hmem
        exact hc (mem_singleton.1 ((unit_mem_encode hd).1 hc')).symm
      rw [if_neg (by simpa using hc), encode_cons, splitOn_append hmem, ih]
      cases hsplit : rest.splitOn d with
      | nil => rfl
      | cons part parts => rfl

theorem decodeLossy_unit (hu : u.toNat < 0xD800 ∨ 0xE000 ≤ u.toNat) (us : List UInt16) :
    decodeLossy (u :: us) = Char.ofNat u.toNat :: decodeLossy us := by
  have hsingle : decodeLossy.single u = Char.ofNat u.toNat := if_neg (by omega)
  cases us with
  | nil => exact congrArg (fun c => [c]) hsingle
  | cons v us => rw [decodeLossy, if_neg (by omega), hsingle]

theorem decodeLossy_encode (text : List Char) : decodeLossy (encode text) = text := by
  induction text with
  | nil => rfl
  | cons c rest ih =>
    have hvalid : c.toNat < 0xD800 ∨ 0xDFFF < c.toNat ∧ c.toNat < 0x110000 := c.valid
    rw [encode_cons, encodeChar]
    split
    · next hlt =>
      have hu : (UInt16.ofNat c.toNat).toNat = c.toNat := toNat_ofNat hlt
      rw [singleton_append, decodeLossy_unit (by omega), hu, Char.ofNat_toNat, ih]
    · next hge =>
      have hhigh := @toNat_ofNat (0xD800 + (c.toNat - 0x10000) / 0x400) (by omega)
      have hlow := @toNat_ofNat (0xDC00 + (c.toNat - 0x10000) % 0x400) (by omega)
      rw [cons_append, singleton_append, decodeLossy, if_pos (by omega), hhigh, hlow, ih]
      have hsum : 0x10000 + (0xD800 + (c.toNat - 0x10000) / 0x400 - 0xD800) * 0x400 +
          (0xDC00 + (c.toNat - 0x10000) % 0x400 - 0xDC00) = c.toNat := by omega
      rw [hsum, Char.ofNat_toNat]

end Utf16
