import LuaSkills.Data.StepDecoders
import LuaSkills.Data.Utf8
import Mathlib.Order.Basic

/-!
# Lossy decoding of UTF-8

`String::from_utf8_lossy`: a first byte is read together with the bytes that may follow it, as far as
they are there; if one is missing, what was read becomes one replacement character. A first byte is
never taken for a following one, so decoding falls into step again at each of them.
-/

namespace Utf8

open List Nat

variable {n : ℕ}

/-- The replacement character. -/
def replacement : Char := Char.ofNat 0xFFFD

/-- A byte that can only stand behind others. -/
def IsFollowing (b : UInt8) : Prop := 0x80 ≤ b.toNat ∧ b.toNat ≤ 0xBF

instance {b : UInt8} : Decidable (IsFollowing b) := inferInstanceAs (Decidable (_ ∧ _))

/-- The ranges of the bytes behind a first byte. -/
def followers (b : ℕ) : Option (List (ℕ × ℕ)) :=
  if b < 0x80 then some []
  else if b < 0xC2 then none
  else if b < 0xE0 then some [(0x80, 0xBF)]
  else if b = 0xE0 then some [(0xA0, 0xBF), (0x80, 0xBF)]
  else if b = 0xED then some [(0x80, 0x9F), (0x80, 0xBF)]
  else if b < 0xF0 then some [(0x80, 0xBF), (0x80, 0xBF)]
  else if b = 0xF0 then some [(0x90, 0xBF), (0x80, 0xBF), (0x80, 0xBF)]
  else if b < 0xF4 then some [(0x80, 0xBF), (0x80, 0xBF), (0x80, 0xBF)]
  else if b = 0xF4 then some [(0x80, 0x8F), (0x80, 0xBF), (0x80, 0xBF)]
  else none

/-- How many bytes are in their ranges, up to the first that is not. -/
def matched : List (ℕ × ℕ) → List UInt8 → ℕ
  | (low, high) :: ranges, b :: rest =>
    if low ≤ b.toNat ∧ b.toNat ≤ high then matched ranges rest + 1 else 0
  | [], _ | _ :: _, [] => 0

/-- The number a first byte and those behind it stand for. -/
def assemble (b : ℕ) : List ℕ → ℕ
  | [] => b
  | [c] => b % 32 * 64 + c % 64
  | [c, d] => (b % 16 * 64 + c % 64) * 64 + d % 64
  | c :: d :: e :: _ => ((b % 8 * 64 + c % 64) * 64 + d % 64) * 64 + e % 64

def lossyStep (b : UInt8) (rest : List UInt8) : List Char × ℕ :=
  match followers b.toNat with
  | none => ([replacement], 0)
  | some ranges =>
    let n := matched ranges rest
    if n = ranges.length then ([Char.ofNat (assemble b.toNat ((rest.take n).map UInt8.toNat))], n)
    else ([replacement], n)

section
variable {ranges : List (ℕ × ℕ)} {rest extra : List UInt8} {b : UInt8}

theorem matched_le : matched ranges rest ≤ rest.length ∧ matched ranges rest ≤ ranges.length := by
  induction ranges generalizing rest with
  | nil => exact ⟨zero_le _, le_refl _⟩
  | cons range ranges ih =>
    cases rest with
    | nil => exact ⟨le_refl _, zero_le _⟩
    | cons b rest =>
      rw [matched]
      split
      · exact ⟨succ_le_succ ih.1, succ_le_succ ih.2⟩
      · exact ⟨zero_le _, zero_le _⟩

theorem matched_append (h : ranges.length ≤ rest.length) :
    matched ranges (rest ++ extra) = matched ranges rest := by
  induction ranges generalizing rest with
  | nil => rfl
  | cons range ranges ih =>
    cases rest with
    | nil => cases h
    | cons b rest => rw [cons_append, matched, matched, ih (le_of_succ_le_succ h)]

def Following (ranges : List (ℕ × ℕ)) : Prop := ∀ r ∈ ranges, 0x80 ≤ r.1 ∧ r.2 ≤ 0xBF

instance : Decidable (Following ranges) :=
  inferInstanceAs (Decidable (∀ r ∈ ranges, 0x80 ≤ r.1 ∧ r.2 ≤ 0xBF))

theorem followers_eq_some (h : followers n = some ranges) :
    ranges.length ≤ 3 ∧ Following ranges := by
  unfold followers at h
  split_ifs at h
  all_goals
    cases h
    decide

theorem isFollowing_of_matched (hranges : Following ranges) (hb : b ∈ rest.take (matched ranges rest)) :
    IsFollowing b := by
  induction ranges generalizing rest with
  | nil =>
    rw [matched, take_zero] at hb
    cases hb
  | cons range ranges ih =>
    cases rest with
    | nil => cases hb
    | cons b' rest =>
      rw [matched] at hb
      split at hb
      · next hin =>
        rw [take_succ_cons] at hb
        have hrange := hranges range mem_cons_self
        rcases mem_cons.1 hb with rfl | hb
        · exact ⟨hrange.1.trans hin.1, hin.2.trans hrange.2⟩
        · exact ih (fun r hr => hranges r (mem_cons_of_mem _ hr)) hb
      · cases hb

end

def lossy : StepDecoder UInt8 Char where
  step := lossyStep
  fits b rest := by
    unfold lossyStep
    split
    · exact zero_le _
    · dsimp only
      split <;> exact matched_le.1

/-- `String::from_utf8_lossy`. -/
def fromUtf8Lossy (bytes : List UInt8) : String := String.ofList (lossy.decode bytes)

/-! ## Steps -/

section
variable {rest : List UInt8} {b : UInt8}

theorem length_step (b : UInt8) (rest : List UInt8) : (lossy.step b rest).1.length = 1 := by
  change (lossyStep b rest).1.length = 1
  unfold lossyStep
  split
  · rfl
  · dsimp only
    split <;> rfl

theorem step_cases (b : UInt8) (rest : List UInt8) :
    (followers b.toNat = none ∧ lossy.step b rest = ([replacement], 0)) ∨
    ∃ ranges, followers b.toNat = some ranges ∧ (lossy.step b rest).2 = matched ranges rest ∧
      (matched ranges rest = ranges.length ∧ (lossy.step b rest).1 =
          [Char.ofNat (assemble b.toNat ((rest.take ranges.length).map UInt8.toNat))] ∨
        matched ranges rest < ranges.length ∧ (lossy.step b rest).1 = [replacement]) := by
  change (_ ∧ lossyStep b rest = _) ∨ ∃ ranges, _ ∧ (lossyStep b rest).2 = _ ∧
    (_ ∧ (lossyStep b rest).1 = _ ∨ _ ∧ (lossyStep b rest).1 = _)
  unfold lossyStep
  split
  · next h => exact .inl ⟨h, rfl⟩
  · next ranges h =>
    dsimp only
    split
    · next heq => exact .inr ⟨ranges, h, rfl, .inl ⟨heq, by rw [heq]⟩⟩
    · next hne => exact .inr ⟨ranges, h, rfl, .inr ⟨lt_of_le_of_ne matched_le.2 hne, rfl⟩⟩

theorem isFollowing_of_step (h : b' ∈ rest.take (lossy.step b rest).2) : IsFollowing b' := by
  rcases step_cases b rest with ⟨-, hstep⟩ | ⟨ranges, hranges, hcount, -⟩
  · rw [hstep, take_zero] at h
    cases h
  · rw [hcount] at h
    exact isFollowing_of_matched (followers_eq_some hranges).2 h

theorem lookahead_lossy : lossy.Lookahead 3 := by
  intro b rest extra hlen
  change lossyStep b (rest ++ extra) = lossyStep b rest
  unfold lossyStep
  split
  · rfl
  · next ranges hranges =>
    have hshort := (followers_eq_some hranges).1.trans hlen
    have hle := (@matched_le ranges rest).1
    rw [matched_append hshort]
    dsimp only
    rw [take_append_of_le_length hle]

end

/-! ## Characters -/

theorem toNat_ofNat (h : n.isValidChar) : (Char.ofNat n).val.toNat = n := by
  rw [Char.ofNat, dif_pos h]
  rfl

theorem ofNat_eq {b : UInt8} (h : n = b.toNat) : UInt8.ofNat n = b := by
  rw [h, UInt8.ofNat_toNat]

section
variable {b c d e : UInt8}

theorem encodeChar_one (hb : b.toNat < 0x80) :
    String.utf8EncodeChar (Char.ofNat (assemble b.toNat [])) = [b] := by
  have hval : (Char.ofNat (assemble b.toNat [])).val.toNat = b.toNat :=
    toNat_ofNat (.inl (lt_trans hb (by decide)))
  simp only [String.utf8EncodeChar, hval]
  rw [if_pos (by omega), ofNat_eq rfl]

theorem encodeChar_two (hb : 0xC2 ≤ b.toNat ∧ b.toNat < 0xE0) (hc : IsFollowing c) :
    String.utf8EncodeChar (Char.ofNat (assemble b.toNat [c.toNat])) = [b, c] := by
  obtain ⟨hc, hc'⟩ := hc
  have hval : (Char.ofNat (assemble b.toNat [c.toNat])).val.toNat = b.toNat % 32 * 64 + c.toNat % 64 :=
    toNat_ofNat (.inl (by simp only [assemble]; omega))
  simp only [String.utf8EncodeChar, hval]
  rw [if_neg (by omega), if_pos (by omega), ofNat_eq (b := b) (by omega), ofNat_eq (b := c) (by omega)]

theorem encodeChar_three (hb : 0xE0 ≤ b.toNat ∧ b.toNat < 0xF0) (hc : IsFollowing c) (hd : IsFollowing d)
    (hlow : b.toNat = 0xE0 → 0xA0 ≤ c.toNat) (hhigh : b.toNat = 0xED → c.toNat ≤ 0x9F) :
    String.utf8EncodeChar (Char.ofNat (assemble b.toNat [c.toNat, d.toNat])) = [b, c, d] := by
  obtain ⟨hc, hc'⟩ := hc
  obtain ⟨hd, hd'⟩ := hd
  have hvalid : (assemble b.toNat [c.toNat, d.toNat]).isValidChar := by
    simp only [assemble, Nat.isValidChar]
    omega
  have hval := toNat_ofNat hvalid
  simp only [assemble] at hval
  simp only [String.utf8EncodeChar, assemble, hval]
  rw [if_neg (by omega), if_neg (by omega), if_pos (by omega), ofNat_eq (b := b) (by omega),
    ofNat_eq (b := c) (by omega), ofNat_eq (b := d) (by omega)]

theorem encodeChar_four (hb : 0xF0 ≤ b.toNat ∧ b.toNat ≤ 0xF4) (hc : IsFollowing c) (hd : IsFollowing d)
    (he : IsFollowing e) (hlow : b.toNat = 0xF0 → 0x90 ≤ c.toNat)
    (hhigh : b.toNat = 0xF4 → c.toNat ≤ 0x8F) :
    String.utf8EncodeChar (Char.ofNat (assemble b.toNat [c.toNat, d.toNat, e.toNat])) = [b, c, d, e] := by
  obtain ⟨hc, hc'⟩ := hc
  obtain ⟨hd, hd'⟩ := hd
  obtain ⟨he, he'⟩ := he
  have hvalid : (assemble b.toNat [c.toNat, d.toNat, e.toNat]).isValidChar := by
    simp only [assemble, Nat.isValidChar]
    omega
  have hval := toNat_ofNat hvalid
  simp only [assemble] at hval
  simp only [String.utf8EncodeChar, assemble, hval]
  rw [if_neg (by omega), if_neg (by omega), if_neg (by omega), ofNat_eq (b := b) (by omega),
    ofNat_eq (b := c) (by omega), ofNat_eq (b := d) (by omega), ofNat_eq (b := e) (by omega)]

end

section
variable {ranges : List (ℕ × ℕ)} {rest : List UInt8} {b : UInt8} {c : Char} {low high : ℕ}

theorem matched_cons (h : matched ((low, high) :: ranges) rest = ranges.length + 1) :
    ∃ b rest', rest = b :: rest' ∧ low ≤ b.toNat ∧ b.toNat ≤ high ∧
      matched ranges rest' = ranges.length := by
  cases rest with
  | nil => cases h
  | cons b rest =>
    rw [matched] at h
    split at h
    · next hin => exact ⟨b, rest, rfl, hin.1, hin.2, succ.inj h⟩
    · cases h

/-- Bytes in their ranges are the bytes of the character they are read as. -/
theorem encodeChar_of_matched (hb : followers b.toNat = some ranges)
    (hmatched : matched ranges rest = ranges.length) :
    String.utf8EncodeChar (Char.ofNat (assemble b.toNat ((rest.take ranges.length).map UInt8.toNat))) =
      b :: rest.take ranges.length := by
  unfold followers at hb
  split_ifs at hb with h1 h2 h3 h4 h5 h6 h7 h8 h9
  · cases hb
    exact encodeChar_one h1
  · cases hb
    obtain ⟨c, rest, rfl, hc, hc', -⟩ := matched_cons hmatched
    exact encodeChar_two (by omega) ⟨hc, hc'⟩
  · cases hb
    obtain ⟨c, rest, rfl, hc, hc', hmatched⟩ := matched_cons hmatched
    obtain ⟨d, rest, rfl, hd, hd', -⟩ := matched_cons hmatched
    exact encodeChar_three (by omega) ⟨by omega, hc'⟩ ⟨hd, hd'⟩ (fun _ => hc) (by omega)
  · cases hb
    obtain ⟨c, rest, rfl, hc, hc', hmatched⟩ := matched_cons hmatched
    obtain ⟨d, rest, rfl, hd, hd', -⟩ := matched_cons hmatched
    exact encodeChar_three (by omega) ⟨hc, by omega⟩ ⟨hd, hd'⟩ (by omega) fun _ => hc'
  · cases hb
    obtain ⟨c, rest, rfl, hc, hc', hmatched⟩ := matched_cons hmatched
    obtain ⟨d, rest, rfl, hd, hd', -⟩ := matched_cons hmatched
    exact encodeChar_three (by omega) ⟨hc, hc'⟩ ⟨hd, hd'⟩ (by omega) (by omega)
  · cases hb
    obtain ⟨c, rest, rfl, hc, hc', hmatched⟩ := matched_cons hmatched
    obtain ⟨d, rest, rfl, hd, hd', hmatched⟩ := matched_cons hmatched
    obtain ⟨e, rest, rfl, he, he', -⟩ := matched_cons hmatched
    exact encodeChar_four (by omega) ⟨by omega, hc'⟩ ⟨hd, hd'⟩ ⟨he, he'⟩ (fun _ => hc) (by omega)
  · cases hb
    obtain ⟨c, rest, rfl, hc, hc', hmatched⟩ := matched_cons hmatched
    obtain ⟨d, rest, rfl, hd, hd', hmatched⟩ := matched_cons hmatched
    obtain ⟨e, rest, rfl, he, he', -⟩ := matched_cons hmatched
    exact encodeChar_four (by omega) ⟨hc, hc'⟩ ⟨hd, hd'⟩ ⟨he, he'⟩ (by omega) (by omega)
  · cases hb
    obtain ⟨c, rest, rfl, hc, hc', hmatched⟩ := matched_cons hmatched
    obtain ⟨d, rest, rfl, hd, hd', hmatched⟩ := matched_cons hmatched
    obtain ⟨e, rest, rfl, he, he', -⟩ := matched_cons hmatched
    exact encodeChar_four (by omega) ⟨hc, by omega⟩ ⟨hd, hd'⟩ ⟨he, he'⟩ (by omega) fun _ => hc'

/-- A step that writes something else than a replacement has read the bytes of that character. -/
theorem bytes_of_step (hc : (lossy.step b rest).1 = [c]) (hne : c ≠ replacement) :
    b :: rest.take (lossy.step b rest).2 = String.utf8EncodeChar c := by
  rcases step_cases b rest with ⟨-, hstep⟩ | ⟨ranges, hranges, hcount, ⟨hfull, hout⟩ | ⟨-, hout⟩⟩
  · rw [hstep] at hc
    exact absurd (singleton_inj.1 hc).symm hne
  · rw [hout] at hc
    rw [hcount, hfull, ← singleton_inj.1 hc, encodeChar_of_matched hranges hfull]
  · rw [hout] at hc
    exact absurd (singleton_inj.1 hc).symm hne

/-- No character is read from more bytes than it has. -/
theorem step_le_length (hc : (lossy.step b rest).1 = [c]) :
    (lossy.step b rest).2 + 1 ≤ (String.utf8EncodeChar c).length := by
  by_cases hne : c = replacement
  · subst hne
    have hthree : (String.utf8EncodeChar replacement).length = 3 := by decide
    rcases step_cases b rest with ⟨-, hstep⟩ | ⟨ranges, hranges, hcount, ⟨hfull, hout⟩ | ⟨hpart, -⟩⟩
    · rw [hstep, hthree]
      decide
    · rw [hout] at hc
      have hbytes := encodeChar_of_matched hranges hfull
      rw [singleton_inj.1 hc] at hbytes
      rw [hcount, hfull, hbytes, length_cons, length_take]
      have := (@matched_le ranges rest).1
      omega
    · have := (followers_eq_some hranges).1
      omega
  · rw [← bytes_of_step hc hne, length_cons, length_take]
    have := lossy.fits b rest
    omega

/-- Following bytes that are all in the ranges of the first. -/
theorem step_of_followers (tail : List UInt8) (hb : followers b.toNat = some ranges)
    (hmatched : matched ranges (tail ++ rest) = tail.length) (hlen : ranges.length = tail.length)
    (hc : assemble b.toNat (tail.map UInt8.toNat) = c.toNat) :
    lossy.step b (tail ++ rest) = ([c], tail.length) := by
  change lossyStep b (tail ++ rest) = _
  unfold lossyStep
  rw [hb]
  dsimp only
  rw [if_pos (hmatched.trans hlen.symm), hmatched, take_left, hc, Char.ofNat_toNat]

theorem matched_cons_of_mem (hb : low ≤ b.toNat ∧ b.toNat ≤ high) :
    matched ((low, high) :: ranges) (b :: rest) = matched ranges rest + 1 := by
  rw [matched, if_pos hb]

/-- The ranges behind the first of three bytes, and the second byte is in its range. -/
theorem followers_three (hn : 0x800 ≤ n ∧ n < 0x10000) (hvalid : n < 0xD800 ∨ 0xDFFF < n) :
    ∃ low high, followers (n / 4096 % 0x10 + 0xE0) = some [(low, high), (0x80, 0xBF)] ∧
      low ≤ n / 64 % 0x40 + 0x80 ∧ n / 64 % 0x40 + 0x80 ≤ high := by
  by_cases hlow : n / 4096 % 0x10 + 0xE0 = 0xE0
  · refine ⟨0xA0, 0xBF, ?_, by omega, by omega⟩
    rw [hlow]
    rfl
  by_cases hhigh : n / 4096 % 0x10 + 0xE0 = 0xED
  · refine ⟨0x80, 0x9F, ?_, by omega, by omega⟩
    rw [hhigh]
    rfl
  · refine ⟨0x80, 0xBF, ?_, by omega, by omega⟩
    rw [followers, if_neg (by omega), if_neg (by omega), if_neg (by omega), if_neg hlow, if_neg hhigh,
      if_pos (by omega)]

/-- The ranges behind the first of four bytes. -/
theorem followers_four (hn : 0x10000 ≤ n) (hvalid : n < 0x110000) :
    ∃ low high, followers (n / 262144 % 0x8 + 0xF0) = some [(low, high), (0x80, 0xBF), (0x80, 0xBF)] ∧
      low ≤ n / 4096 % 0x40 + 0x80 ∧ n / 4096 % 0x40 + 0x80 ≤ high := by
  by_cases hlow : n / 262144 % 0x8 + 0xF0 = 0xF0
  · refine ⟨0x90, 0xBF, ?_, by omega, by omega⟩
    rw [hlow]
    rfl
  by_cases hhigh : n / 262144 % 0x8 + 0xF0 = 0xF4
  · refine ⟨0x80, 0x8F, ?_, by omega, by omega⟩
    rw [hhigh]
    rfl
  · refine ⟨0x80, 0xBF, ?_, by omega, by omega⟩
    rw [followers, if_neg (by omega), if_neg (by omega), if_neg (by omega), if_neg (by omega),
      if_neg (by omega), if_neg (by omega), if_neg hlow, if_pos (by omega)]

/-- The bytes of a character are read as the character. -/
theorem step_encodeChar (c : Char) : ∃ b tail, String.utf8EncodeChar c = b :: tail ∧
    ∀ rest, lossy.step b (tail ++ rest) = ([c], tail.length) := by
  have hvalid : c.toNat < 0xD800 ∨ 0xDFFF < c.toNat ∧ c.toNat < 0x110000 := c.valid
  have htail := fun n => @toNat_marked 0x40 0x80 n (by decide) (by decide)
  have hin : ∀ {low high n : ℕ}, low ≤ n % 0x40 + 0x80 → n % 0x40 + 0x80 ≤ high →
      low ≤ (UInt8.ofNat (n % 0x40 + 0x80)).toNat ∧ (UInt8.ofNat (n % 0x40 + 0x80)).toNat ≤ high := by
    intro low high n hlow hhigh
    rw [htail]
    exact ⟨hlow, hhigh⟩
  rcases encodeChar_cases c with ⟨hn, hbytes⟩ | ⟨hn, hbytes⟩ | ⟨hn, hbytes⟩ | ⟨hn, hbytes⟩
  · refine ⟨_, _, hbytes, fun rest => ?_⟩
    have hb : (byte c).toNat = c.toNat := toNat_byte hn
    exact step_of_followers [] (by rw [hb, followers, if_pos hn]) rfl rfl hb
  · have hb := @toNat_marked 0x20 0xC0 (c.toNat / 64) (by decide) (by decide)
    have hfollow : followers (c.toNat / 64 % 0x20 + 0xC0) = some [(0x80, 0xBF)] := by
      rw [followers, if_neg (by omega), if_neg (by omega), if_pos (by omega)]
    refine ⟨_, _, hbytes, fun rest => step_of_followers _ (hb ▸ hfollow) ?_ rfl ?_⟩
    · rw [cons_append, matched_cons_of_mem (hin (by omega) (by omega))]
      rfl
    · simp only [map, assemble, hb, htail]
      omega
  · have hb := @toNat_marked 0x10 0xE0 (c.toNat / 4096) (by decide) (by decide)
    obtain ⟨low, high, hfollow, hlow, hhigh⟩ := followers_three hn (hvalid.imp_right And.left)
    refine ⟨_, _, hbytes, fun rest => step_of_followers _ (hb ▸ hfollow) ?_ rfl ?_⟩
    · rw [cons_append, matched_cons_of_mem (hin hlow hhigh), cons_append,
        matched_cons_of_mem (hin (by omega) (by omega))]
      rfl
    · simp only [map, assemble, hb, htail]
      omega
  · have hb := @toNat_marked 0x8 0xF0 (c.toNat / 262144) (by decide) (by decide)
    obtain ⟨low, high, hfollow, hlow, hhigh⟩ := followers_four hn (by omega)
    refine ⟨_, _, hbytes, fun rest => step_of_followers _ (hb ▸ hfollow) ?_ rfl ?_⟩
    · rw [cons_append, matched_cons_of_mem (hin hlow hhigh), cons_append,
        matched_cons_of_mem (hin (by omega) (by omega)), cons_append,
        matched_cons_of_mem (hin (by omega) (by omega))]
      rfl
    · simp only [map, assemble, hb, htail]
      omega

end

/-! ## Texts -/

section
variable {text : List Char} {bytes rest p q : List UInt8} {b : UInt8} {c : Char}

/-- The first byte of a character, and those behind it. -/
theorem encodeChar_cons (c : Char) : ∃ b tail, String.utf8EncodeChar c = b :: tail ∧ ¬ IsFollowing b ∧
    (∀ b' ∈ tail, IsFollowing b') ∧ ∀ rest, lossy.step b (tail ++ rest) = ([c], tail.length) := by
  obtain ⟨b, tail, hbytes, hstep⟩ := step_encodeChar c
  have hown := hstep []
  rw [append_nil] at hown
  refine ⟨b, tail, hbytes, ?_, fun b' hb' => ?_, hstep⟩
  · rintro ⟨hlow, hhigh⟩
    have hnone : lossy.step b tail = ([replacement], 0) := by
      change lossyStep b tail = _
      rw [lossyStep, followers, if_neg (by omega), if_pos (by omega)]
    rw [hown, Prod.mk.injEq] at hnone
    rw [singleton_inj.1 hnone.1] at hbytes
    have hthree := congrArg length hbytes
    rw [length_cons, hnone.2] at hthree
    exact absurd hthree (by decide)
  · refine @isFollowing_of_step tail b _ ?_
    rwa [hown, take_length]

theorem decode_encode_append (text : List Char) (rest : List UInt8) :
    lossy.decode (encode text ++ rest) = text ++ lossy.decode rest := by
  induction text with
  | nil => rfl
  | cons c text ih =>
    obtain ⟨b, tail, hbytes, -, -, hstep⟩ := encodeChar_cons c
    rw [encode_cons, hbytes, append_assoc, cons_append, StepDecoder.decode_cons, hstep]
    dsimp only
    rw [drop_left, ih]
    rfl

theorem decode_encode (text : List Char) : lossy.decode (encode text) = text := by
  have h := decode_encode_append text []
  rwa [append_nil, StepDecoder.decode_nil, append_nil] at h

theorem encode_inj (h : encode text = encode text') : text = text' := by
  rw [← decode_encode text, h, decode_encode]

/-- What begins with a first byte, or is empty. -/
def Fresh (bytes : List UInt8) : Prop := ∀ b, bytes.head? = some b → ¬ IsFollowing b

theorem fresh_nil : Fresh [] := fun _ h => nomatch h

/-- A valid text cut in front of a first byte: both parts are valid. -/
theorem split_encode (h : encode text = p ++ q) (hq : Fresh q) :
    ∃ t t', text = t ++ t' ∧ p = encode t ∧ q = encode t' := by
  induction text generalizing p with
  | nil =>
    obtain ⟨rfl, rfl⟩ := nil_eq_append_iff.1 h
    exact ⟨[], [], rfl, rfl, rfl⟩
  | cons c text ih =>
    obtain ⟨b, tail, hbytes, -, htail, -⟩ := encodeChar_cons c
    rw [encode_cons] at h
    rcases append_eq_append_iff.1 h with ⟨p', rfl, htext⟩ | ⟨q', hchar, rfl⟩
    · obtain ⟨t, t', rfl, rfl, rfl⟩ := ih htext
      exact ⟨c :: t, t', rfl, rfl, rfl⟩
    · cases p with
      | nil => exact ⟨[], c :: text, rfl, rfl, by rw [encode_cons, hchar, nil_append]⟩
      | cons b' p =>
        rw [hbytes, cons_append] at hchar
        have hcut := (cons.inj hchar).2
        cases q' with
        | nil =>
          refine ⟨[c], text, rfl, ?_, rfl⟩
          rw [encode_cons, encode_nil, append_nil, hbytes, (cons.inj hchar).1, hcut, append_nil]
        | cons b'' q' =>
          have hmem : b'' ∈ tail := hcut ▸ mem_append_right _ mem_cons_self
          exact absurd (htail b'' hmem) (hq b'' rfl)

/-! ## Counting first bytes -/

/-- How many bytes are first bytes. -/
def firstBytes (bytes : List UInt8) : ℕ := bytes.countP fun b => ¬ IsFollowing b

theorem firstBytes_append : firstBytes (p ++ q) = firstBytes p + firstBytes q := countP_append

theorem firstBytes_following (h : ∀ b ∈ bytes, IsFollowing b) : firstBytes bytes = 0 :=
  countP_eq_zero.2 fun b hb => by simpa using h b hb

theorem firstBytes_encode (text : List Char) : firstBytes (encode text) = text.length := by
  induction text with
  | nil => rfl
  | cons c text ih =>
    obtain ⟨b, tail, hbytes, hb, htail, -⟩ := encodeChar_cons c
    have hone : firstBytes (b :: tail) = 1 := by
      rw [firstBytes, countP_cons_of_pos (by simpa using hb), ← firstBytes, firstBytes_following htail]
    rw [encode_cons, firstBytes_append, hbytes, hone, ih, length_cons, Nat.add_comm]

/-- Every step reads at most one first byte, and none when it begins with another. -/
theorem firstBytes_cons (b : UInt8) (rest : List UInt8) :
    firstBytes (b :: rest) = (if IsFollowing b then 0 else 1) +
      firstBytes (rest.drop (lossy.step b rest).2) := by
  have hsplit : firstBytes rest = firstBytes (rest.drop (lossy.step b rest).2) := by
    conv_lhs => rw [← take_append_drop (lossy.step b rest).2 rest]
    rw [firstBytes_append, firstBytes_following fun b' hb' => isFollowing_of_step hb', Nat.zero_add]
  rw [← hsplit, firstBytes, countP_cons, ← firstBytes, Nat.add_comm]
  by_cases hb : IsFollowing b <;> simp [hb]

theorem firstBytes_le (bytes : List UInt8) : firstBytes bytes ≤ (lossy.decode bytes).length := by
  induction bytes using lossy.steps_induction with
  | nil => exact le_refl 0
  | cons b rest ih =>
    rw [firstBytes_cons, StepDecoder.decode_cons, length_append, length_step]
    split <;> omega

/-- Text that begins inside a character decodes to more characters than it has first bytes. -/
theorem fresh_of_length_decode (h : (lossy.decode bytes).length = firstBytes bytes) : Fresh bytes := by
  intro b hb hfollowing
  cases bytes with
  | nil => cases hb
  | cons b' rest =>
    cases hb
    have hrest := firstBytes_le (rest.drop (lossy.step b rest).2)
    rw [firstBytes_cons, if_pos hfollowing, StepDecoder.decode_cons, length_append, length_step] at h
    omega

theorem firstBytes_flatten_le (pieces : List (List UInt8)) :
    firstBytes pieces.flatten ≤ (pieces.flatMap lossy.decode).length := by
  induction pieces with
  | nil => exact le_refl 0
  | cons piece pieces ih =>
    have hpiece := firstBytes_le piece
    rw [flatten_cons, firstBytes_append, flatMap_cons, length_append]
    omega

theorem fresh_flatten {pieces : List (List UInt8)}
    (h : (pieces.flatMap lossy.decode).length ≤ firstBytes pieces.flatten) : Fresh pieces.flatten := by
  induction pieces with
  | nil => exact fresh_nil
  | cons piece pieces ih =>
    have hpiece := firstBytes_le piece
    have hpieces := firstBytes_flatten_le pieces
    rw [flatten_cons, firstBytes_append, flatMap_cons, length_append] at h
    cases piece with
    | nil =>
      rw [flatten_cons, nil_append]
      exact ih (by omega)
    | cons b rest => exact fun b' hb' => @fresh_of_length_decode (b :: rest) (by omega) b' hb'

/-- Pieces of a valid text whose decoded characters are not too many are cut between characters. -/
theorem valid_of_lengths {pieces : List (List UInt8)} (hpieces : pieces.flatten = encode text)
    (hle : (pieces.flatMap lossy.decode).length ≤ text.length) :
    ∀ piece ∈ pieces, ∃ t, piece = encode t := by
  induction pieces generalizing text with
  | nil => exact fun piece hpiece => nomatch hpiece
  | cons piece pieces ih =>
    have hcount : firstBytes piece + firstBytes pieces.flatten = text.length := by
      rw [← firstBytes_append, ← flatten_cons, hpieces, firstBytes_encode]
    rw [flatMap_cons, length_append] at hle
    rw [flatten_cons] at hpieces
    have hpiece := firstBytes_le piece
    obtain ⟨t, t', rfl, rfl, ht'⟩ := split_encode hpieces.symm (fresh_flatten (by omega))
    rw [decode_encode, length_append] at hle
    exact forall_mem_cons.2 ⟨⟨t, rfl⟩, ih ht' (by omega)⟩

/-! ## Searching -/

/-- Decoding falls into step at a first byte. -/
theorem decode_append_fresh (hq : Fresh q) (p : List UInt8) :
    ∃ out, lossy.decode (p ++ q) = out ++ lossy.decode q := by
  induction hlen : p.length using Nat.strong_induction_on generalizing p with
  | _ n ih =>
    cases p with
    | nil => exact ⟨[], rfl⟩
    | cons b p =>
      have hshort : (lossy.step b (p ++ q)).2 ≤ p.length := by
        by_contra hlong
        have hfits := lossy.fits b (p ++ q)
        rw [length_append] at hfits
        cases q with
        | nil =>
          rw [length_nil] at hfits
          omega
        | cons b' q =>
          have hmem : b' ∈ (p ++ b' :: q).take (lossy.step b (p ++ b' :: q)).2 := by
            rw [take_append, mem_append]
            refine .inr ?_
            obtain ⟨m, hm⟩ := exists_eq_succ_of_ne_zero
              (n := (lossy.step b (p ++ b' :: q)).2 - p.length) (by omega)
            rw [hm, take_succ_cons]
            exact mem_cons_self
          exact hq b' rfl (isFollowing_of_step hmem)
      obtain ⟨out, hout⟩ := ih (p.drop (lossy.step b (p ++ q)).2).length
        (by rw [← hlen, length_drop, length_cons]; omega) _ rfl
      refine ⟨(lossy.step b (p ++ q)).1 ++ out, ?_⟩
      rw [cons_append, StepDecoder.decode_cons, drop_append_of_le_length hshort, hout,
        append_assoc]

theorem sized_lossy : lossy.Sized fun c => (String.utf8EncodeChar c).length := by
  intro b rest
  obtain ⟨c, hc⟩ := length_eq_one_iff.1 (length_step b rest)
  exact ⟨c, hc, step_le_length hc⟩

variable {M : List Char}

/-- A text without a replacement stands for its bytes. -/
theorem encode_decode (h : replacement ∉ lossy.decode bytes) : encode (lossy.decode bytes) = bytes := by
  induction bytes using lossy.steps_induction with
  | nil => rfl
  | cons b rest ih =>
    obtain ⟨c, hc, -⟩ := sized_lossy b rest
    rw [StepDecoder.decode_cons, hc, singleton_append, mem_cons, not_or] at h
    rw [StepDecoder.decode_cons, hc, singleton_append, encode_cons, ih h.2,
      ← bytes_of_step hc (Ne.symm h.1), cons_append, take_append_drop]

theorem encode_prefix_of_decode (hM : replacement ∉ M) (h : lossy.decode bytes = M ++ B) :
    encode M <+: bytes := by
  induction M generalizing bytes with
  | nil => exact nil_prefix
  | cons c M ih =>
    rw [mem_cons, not_or] at hM
    cases bytes with
    | nil => cases h
    | cons b rest =>
      obtain ⟨c', hc, -⟩ := sized_lossy b rest
      rw [StepDecoder.decode_cons, hc] at h
      obtain ⟨rfl, htail⟩ := cons.inj h
      obtain ⟨suffix, hsuffix⟩ := ih hM.2 htail
      refine ⟨suffix, ?_⟩
      rw [encode_cons, ← bytes_of_step hc (Ne.symm hM.1), append_assoc, hsuffix, cons_append,
        take_append_drop]

/-- Text without the replacement character occurs in what is decoded exactly when its bytes occur. -/
theorem infix_decode_iff (hM : replacement ∉ M) : M <:+: lossy.decode bytes ↔ encode M <:+: bytes := by
  constructor
  · rintro ⟨A, B, h⟩
    induction A generalizing bytes with
    | nil =>
      rw [nil_append] at h
      exact (encode_prefix_of_decode hM h.symm).isInfix
    | cons c A ih =>
      cases bytes with
      | nil => cases h
      | cons b rest =>
        obtain ⟨c', hc, -⟩ := sized_lossy b rest
        rw [StepDecoder.decode_cons, hc] at h
        have htail := ih (cons.inj h).2
        have hdrop : rest.drop (lossy.step b rest).2 <:+ b :: rest :=
          (drop_suffix _ rest).trans (suffix_cons b rest)
        exact htail.trans hdrop.isInfix
  · rintro ⟨p, q, rfl⟩
    cases M with
    | nil => exact nil_infix
    | cons c M =>
      have hfresh : Fresh (encode (c :: M) ++ q) := by
        obtain ⟨b, tail, hbytes, hb, -⟩ := encodeChar_cons c
        intro b' hb'
        rw [encode_cons, hbytes] at hb'
        cases hb'
        exact hb
      obtain ⟨out, hout⟩ := decode_append_fresh hfresh p
      rw [append_assoc, hout, decode_encode_append]
      exact ⟨out, lossy.decode q, by rw [append_assoc]⟩

/-- Bytes that begin early enough are there before others come. -/
theorem infix_drop {m l : List UInt8} (hk : k + m.length ≤ l.length + 1) (h : m <:+: l ++ extra) :
    m <:+: (l ++ extra).drop k ∨ m <:+: l := by
  obtain ⟨p, q, hpq⟩ := h
  rcases lt_or_ge p.length k with hlt | hge
  · right
    have hlength : (p ++ m).length ≤ l.length := by
      rw [length_append]
      omega
    have hprefix : p ++ m <+: l :=
      prefix_of_prefix_length_le ⟨q, hpq⟩ (prefix_append l extra) hlength
    exact (suffix_append p m).isInfix.trans hprefix.isInfix
  · left
    rw [← hpq, append_assoc, drop_append_of_le_length hge, ← append_assoc]
    exact ⟨p.drop k, q, rfl⟩

/-- A search for text without the replacement character can resume anywhere. -/
theorem resume_iff {old : List UInt8} (hM : replacement ∉ M)
    (hback : d + k + (encode M).length ≤ old.length + 1) (hold : ¬ M <:+: lossy.decode old) :
    M <:+: lossy.decode ((old.drop d ++ extra).drop k) ↔ M <:+: lossy.decode (old.drop d ++ extra) := by
  rw [infix_decode_iff hM] at hold
  rw [infix_decode_iff hM, infix_decode_iff hM]
  constructor
  · intro h
    exact h.trans (drop_suffix k _).isInfix
  · intro h
    have hleft : k + (encode M).length ≤ (old.drop d).length + 1 := by
      rw [length_drop]
      omega
    rcases infix_drop hleft h with hfound | hearlier
    · exact hfound
    · exact absurd (hearlier.trans (drop_suffix d old).isInfix) hold

end

end Utf8
