import Mathlib.Data.List.Basic
import Mathlib.Algebra.GroupWithZero.Nat

/-!
# UTF-8

Texts as sequences of bytes. An ASCII character is one byte with its own number, and the bytes of the
other characters are not ASCII.
-/

namespace Utf8

open List

/-- The bytes of a text. -/
def encode (text : List Char) : List UInt8 := text.flatMap String.utf8EncodeChar

def byte (c : Char) : UInt8 := UInt8.ofNat c.toNat

/-- `str::from_utf8`. -/
def decode? (bytes : List UInt8) : Option String := String.fromUTF8? bytes.toByteArray

variable {c d : Char} {text : List Char}

@[simp] theorem encode_nil : encode [] = [] := rfl

theorem encode_cons (c : Char) (text : List Char) :
    encode (c :: text) = String.utf8EncodeChar c ++ encode text := rfl

theorem encode_append (text text' : List Char) : encode (text ++ text') = encode text ++ encode text' :=
  flatMap_append

theorem encodeChar_of_ascii (h : c.toNat < 128) : String.utf8EncodeChar c = [byte c] :=
  if_pos (Nat.le_of_lt_succ h)

theorem toNat_byte (h : c.toNat < 128) : (byte c).toNat = c.toNat :=
  UInt8.toNat_ofNat_of_lt' (Nat.lt_trans h (by decide))

theorem byte_inj (hc : c.toNat < 128) (hd : d.toNat < 128) (h : byte c = byte d) : c = d := by
  have hnat := congrArg UInt8.toNat h
  rw [toNat_byte hc, toNat_byte hd] at hnat
  exact Char.toNat_inj.1 hnat

theorem encode_ascii (h : ∀ c ∈ text, c.toNat < 128) : encode text = text.map byte := by
  induction text with
  | nil => rfl
  | cons c text ih =>
    rw [encode_cons, encodeChar_of_ascii (h c mem_cons_self),
      ih fun d hd => h d (mem_cons_of_mem c hd)]
    rfl

theorem length_le_utf8ByteSize (text : String) : text.toList.length ≤ text.utf8ByteSize := by
  have hlist : ∀ text : List Char, text.length ≤ (String.ofList text).utf8ByteSize := by
    intro text
    induction text with
    | nil => exact Nat.zero_le _
    | cons c text ih =>
      have hc := c.utf8Size_pos
      rw [← singleton_append, String.ofList_append, ← String.singleton_eq_ofList,
        String.utf8ByteSize_append, length_append, String.utf8ByteSize_singleton, length_singleton]
      omega
  have h := hlist text.toList
  rwa [String.ofList_toList] at h

/-- The four lengths of a character. -/
theorem encodeChar_cases (c : Char) :
    c.toNat < 0x80 ∧ String.utf8EncodeChar c = [byte c] ∨
    (0x80 ≤ c.toNat ∧ c.toNat < 0x800) ∧ String.utf8EncodeChar c =
      [UInt8.ofNat (c.toNat / 64 % 32 + 0xC0), UInt8.ofNat (c.toNat % 64 + 0x80)] ∨
    (0x800 ≤ c.toNat ∧ c.toNat < 0x10000) ∧ String.utf8EncodeChar c =
      [UInt8.ofNat (c.toNat / 4096 % 16 + 0xE0), UInt8.ofNat (c.toNat / 64 % 64 + 0x80),
        UInt8.ofNat (c.toNat % 64 + 0x80)] ∨
    0x10000 ≤ c.toNat ∧ String.utf8EncodeChar c =
      [UInt8.ofNat (c.toNat / 262144 % 8 + 0xF0), UInt8.ofNat (c.toNat / 4096 % 64 + 0x80),
        UInt8.ofNat (c.toNat / 64 % 64 + 0x80), UInt8.ofNat (c.toNat % 64 + 0x80)] := by
  change c.val.toNat < _ ∧ _ ∨ _
  unfold String.utf8EncodeChar
  dsimp only
  split
  · next h => exact .inl ⟨Nat.lt_succ_of_le h, rfl⟩
  split
  · next h h' => exact .inr (.inl ⟨⟨Nat.not_le.1 h, Nat.lt_succ_of_le h'⟩, rfl⟩)
  split
  · next h h' => exact .inr (.inr (.inl ⟨⟨Nat.not_le.1 h, Nat.lt_succ_of_le h'⟩, rfl⟩))
  · next h => exact .inr (.inr (.inr ⟨Nat.not_le.1 h, rfl⟩))

/-- A byte with its mark and payload added up. -/
theorem toNat_marked (n : ℕ) (hm : 0 < m) (hmark : m + mark ≤ 256) :
    (UInt8.ofNat (n % m + mark)).toNat = n % m + mark := by
  have hlt : n % m + mark < 256 := by
    have := Nat.mod_lt n hm
    omega
  exact UInt8.toNat_ofNat_of_lt' hlt

theorem le_marked {n : ℕ} (hm : 0 < m) (hmark : m + mark ≤ 256) (hle : 128 ≤ mark) :
    128 ≤ (UInt8.ofNat (n % m + mark)).toNat := by
  rw [toNat_marked n hm hmark]
  omega

/-- The bytes of the other characters are above the ASCII range. -/
theorem le_of_mem_encodeChar (h : 128 ≤ c.toNat) (hb : b ∈ String.utf8EncodeChar c) : 128 ≤ b.toNat := by
  rcases encodeChar_cases c with ⟨hlt, -⟩ | ⟨-, hbytes⟩ | ⟨-, hbytes⟩ | ⟨-, hbytes⟩
  · omega
  all_goals
    rw [hbytes] at hb
    simp only [mem_cons, not_mem_nil, or_false] at hb
  · rcases hb with rfl | rfl
    all_goals exact le_marked (by decide) (by decide) (by decide)
  · rcases hb with rfl | rfl | rfl
    all_goals exact le_marked (by decide) (by decide) (by decide)
  · rcases hb with rfl | rfl | rfl | rfl
    all_goals exact le_marked (by decide) (by decide) (by decide)

/-- An ASCII byte of a character is the character. -/
theorem eq_of_byte_mem (hd : d.toNat < 128) (h : byte d ∈ String.utf8EncodeChar c) : c = d := by
  by_cases hc : c.toNat < 128
  · rw [encodeChar_of_ascii hc, mem_singleton] at h
    exact (byte_inj hd hc h).symm
  · have := le_of_mem_encodeChar (Nat.not_lt.1 hc) h
    rw [toNat_byte hd] at this
    omega

theorem decode?_encode (text : List Char) : decode? (encode text) = some (String.ofList text) :=
  dif_pos ⟨text, rfl⟩

theorem decode?_eq_some {bytes : List UInt8} {text : String} (h : decode? bytes = some text) :
    encode text.toList = bytes := by
  unfold decode? String.fromUTF8? at h
  split at h
  · next hvalid =>
    have htext : text.toByteArray = bytes.toByteArray :=
      congrArg String.toByteArray (Option.some.inj h).symm
    have hbytes : (encode text.toList).toByteArray = bytes.toByteArray :=
      String.utf8Encode_toList.trans htext
    have hdata := congrArg (fun b : ByteArray => b.data.toList) hbytes
    simpa only [data_toByteArray] using hdata
  · cases h

end Utf8
