import LuaSkills.Data.Utf8Lossy

/-!
# Checked decoding of UTF-8

`str::from_utf8` and its errors. An error says how far the bytes are valid, and whether what follows can
still become a character (`Incomplete`) or cannot (`Invalid`).
-/

namespace Utf8

open List

/-- `Utf8Error`: without a length, the bytes end inside a character. -/
structure Utf8Error where
  validUpTo : ℕ
  errorLen : Option ℕ
deriving DecidableEq

/-- Reads on, inside a character that began at `start` and of which `taken` bytes have been read and
those in the ranges are missing, or between two characters. -/
def fromUtf8From (start taken : ℕ) : List (ℕ × ℕ) → List UInt8 → Except Utf8Error Unit
  | [], [] => .ok ()
  | _ :: _, [] => .error ⟨start, none⟩
  | [], b :: rest =>
    match followers b.toNat with
    | none => .error ⟨start, some 1⟩
    | some [] => fromUtf8From (start + 1) 0 [] rest
    | some ranges => fromUtf8From start 1 ranges rest
  | (low, high) :: ranges, b :: rest =>
    if low ≤ b.toNat ∧ b.toNat ≤ high then
      if ranges = [] then fromUtf8From (start + taken + 1) 0 [] rest
      else fromUtf8From start (taken + 1) ranges rest
    else .error ⟨start, some taken⟩

def fromUtf8 (bytes : List UInt8) : Except Utf8Error Unit := fromUtf8From 0 0 [] bytes

/-- The bytes of a character without the last ones. -/
def Incomplete (rest : List UInt8) : Prop :=
  rest ≠ [] ∧ ∃ c, rest <+: String.utf8EncodeChar c ∧ rest ≠ String.utf8EncodeChar c

/-- No character begins like this. -/
def Invalid (rest : List UInt8) : Prop :=
  rest ≠ [] ∧ ∀ c, ¬ rest <+: String.utf8EncodeChar c ∧ ¬ String.utf8EncodeChar c <+: rest

/-- What the check says of bytes behind a valid text. -/
inductive Verdict (start : ℕ) (bytes : List UInt8) : Except Utf8Error Unit → Prop where
  | valid (text : List Char) : bytes = encode text → Verdict start bytes (.ok ())
  | incomplete (text : List Char) {rest : List UInt8} :
    bytes = encode text ++ rest → Incomplete rest →
    Verdict start bytes (.error ⟨start + (encode text).length, none⟩)
  | invalid (text : List Char) {rest : List UInt8} {n : ℕ} :
    bytes = encode text ++ rest → Invalid rest →
    Verdict start bytes (.error ⟨start + (encode text).length, some n⟩)

section
variable {ranges read : List (ℕ × ℕ)} {p q rest more : List UInt8} {b : UInt8} {low high start : ℕ}
  {result : Except Utf8Error Unit}

/-! ## Characters -/

/-- The ranges of the bytes behind the first of a character. -/
theorem followers_encodeChar (c : Char) : ∃ b tail ranges, String.utf8EncodeChar c = b :: tail ∧
    followers b.toNat = some ranges ∧ ranges.length = tail.length ∧
    matched ranges tail = ranges.length := by
  by_cases hc : c = replacement
  · subst hc
    exact ⟨0xEF, [0xBF, 0xBD], [(0x80, 0xBF), (0x80, 0xBF)], by decide, by decide, rfl, by decide⟩
  obtain ⟨b, tail, hbytes, hstep⟩ := step_encodeChar c
  have hown : lossyStep b tail = ([c], tail.length) := by
    have h := hstep []
    rwa [append_nil] at h
  unfold lossyStep at hown
  split at hown
  · exact absurd (singleton_inj.1 (Prod.mk.inj hown).1).symm hc
  · next ranges hranges =>
    dsimp only at hown
    split at hown
    · next hfull =>
      have hcount := (Prod.mk.inj hown).2
      exact ⟨b, tail, ranges, hbytes, hranges, hfull.symm.trans hcount, hfull⟩
    · exact absurd (singleton_inj.1 (Prod.mk.inj hown).1).symm hc

/-- The bytes of a character do not begin those of another. -/
theorem encodeChar_prefix (h : String.utf8EncodeChar c <+: String.utf8EncodeChar c') : c = c' := by
  obtain ⟨rest, hrest⟩ := h
  have hdecode := decode_encode_append [c] rest
  have hwhole := decode_encode [c']
  rw [encode_cons, encode_nil, append_nil] at hdecode hwhole
  rw [hrest, hwhole] at hdecode
  exact (cons.inj hdecode).1.symm

theorem followers_ranges (h : followers n = some ranges) : ∀ r ∈ ranges, r.1 ≤ r.2 ∧ r.2 < 256 := by
  unfold followers at h
  split_ifs at h
  all_goals
    cases h
    decide

/-- Ranges of following bytes can be filled. -/
theorem exists_matched (hranges : ∀ r ∈ ranges, r.1 ≤ r.2 ∧ r.2 < 256) :
    ∃ more, matched ranges more = ranges.length ∧ more.length = ranges.length := by
  induction ranges with
  | nil => exact ⟨[], rfl, rfl⟩
  | cons range ranges ih =>
    obtain ⟨hrange, hrest⟩ := forall_mem_cons.1 hranges
    obtain ⟨more, hmatched, hlength⟩ := ih hrest
    have hsmall : range.1 < UInt8.size := hrange.1.trans_lt hrange.2
    have hbyte : (UInt8.ofNat range.1).toNat = range.1 := UInt8.toNat_ofNat_of_lt' hsmall
    refine ⟨UInt8.ofNat range.1 :: more, ?_, congrArg Nat.succ hlength⟩
    rw [matched_cons_of_mem ⟨hbyte.ge, hbyte.le.trans hrange.1⟩, hmatched, length_cons]

theorem matched_append_ranges (hlength : read.length = q.length) (h : matched read q = q.length) :
    matched (read ++ ranges) (q ++ more) = q.length + matched ranges more := by
  induction read generalizing q with
  | nil =>
    rw [length_eq_zero_iff.1 hlength.symm]
    exact (Nat.zero_add _).symm
  | cons range read ih =>
    obtain ⟨b, q', rfl, hlow, hhigh, htail⟩ := matched_cons (h.trans hlength.symm)
    have hlength' : read.length = q'.length := Nat.succ.inj hlength
    rw [cons_append, cons_append, matched_cons_of_mem ⟨hlow, hhigh⟩,
      ih hlength' (htail.trans hlength'), length_cons]
    omega

/-! ## Inside a character -/

/-- The bytes begin a character, and behind them bytes in the ranges are missing. -/
def Expects (p : List UInt8) (ranges : List (ℕ × ℕ)) : Prop :=
  ∃ b q read, p = b :: q ∧ followers b.toNat = some (read ++ ranges) ∧ read.length = q.length ∧
    matched read q = q.length

theorem Expects.first (h : followers b.toNat = some ranges) : Expects [b] ranges :=
  ⟨b, [], [], rfl, h, rfl, rfl⟩

theorem Expects.next (h : Expects p ((low, high) :: ranges)) (hb : low ≤ b.toNat ∧ b.toNat ≤ high) :
    Expects (p ++ [b]) ranges := by
  obtain ⟨b₀, q, read, rfl, hfollow, hlength, hmatched⟩ := h
  refine ⟨b₀, q ++ [b], read ++ [(low, high)], rfl, ?_, ?_, ?_⟩
  · rw [append_assoc]
    exact hfollow
  · rw [length_append, length_append, hlength]
    rfl
  · rw [matched_append_ranges hlength hmatched, matched_cons_of_mem hb, length_append]
    rfl

theorem Expects.complete (h : Expects p []) : ∃ c, String.utf8EncodeChar c = p := by
  obtain ⟨b, q, read, rfl, hfollow, hlength, hmatched⟩ := h
  rw [append_nil] at hfollow
  have hchar := encodeChar_of_matched hfollow (hmatched.trans hlength.symm)
  rw [hlength, take_length] at hchar
  exact ⟨_, hchar⟩

theorem Expects.incomplete {range : ℕ × ℕ} (h : Expects p (range :: ranges)) : Incomplete p := by
  obtain ⟨b, q, read, rfl, hfollow, hlength, hmatched⟩ := h
  have hranges : ∀ r ∈ range :: ranges, r.1 ≤ r.2 ∧ r.2 < 256 := fun r hr =>
    followers_ranges hfollow r (mem_append_right _ hr)
  obtain ⟨more, hmore, hmoreLength⟩ := exists_matched hranges
  have hwhole : (read ++ range :: ranges).length = (q ++ more).length := by
    rw [length_append, length_append, hlength, hmoreLength]
  have hfull : matched (read ++ range :: ranges) (q ++ more) = (read ++ range :: ranges).length := by
    rw [matched_append_ranges hlength hmatched, hmore, length_append, hlength]
  obtain ⟨c, hchar⟩ : ∃ c, String.utf8EncodeChar c = b :: (q ++ more) := by
    have hchar := encodeChar_of_matched hfollow hfull
    rw [hwhole, take_length] at hchar
    exact ⟨_, hchar⟩
  refine ⟨cons_ne_nil b q, c, ?_, ?_⟩
  · rw [hchar]
    exact ⟨more, rfl⟩
  · intro heq
    have hlengths := congrArg length (heq.trans hchar)
    rw [length_cons, length_cons, length_append, hmoreLength, length_cons] at hlengths
    omega

/-- Two lists of which one begins the other, and the longer one reaches behind `q`. -/
theorem exists_append_of_comparable (h : q ++ b :: rest <+: l ∨ l <+: q ++ b :: rest)
    (hlong : q.length < l.length) : ∃ rest', l = q ++ b :: rest' := by
  rcases h with ⟨more, rfl⟩ | hbegins
  · exact ⟨rest ++ more, by rw [append_assoc, cons_append]⟩
  · obtain ⟨k, hk⟩ := Nat.exists_eq_add_of_lt hlong
    rw [prefix_iff_eq_take.1 hbegins, hk, Nat.add_assoc, take_length_add_append,
      take_succ_cons]
    exact ⟨rest.take k, rfl⟩

theorem Expects.invalid (h : Expects p ((low, high) :: ranges)) (hb : ¬ (low ≤ b.toNat ∧ b.toNat ≤ high)) :
    Invalid (p ++ b :: rest) := by
  obtain ⟨b₀, q, read, rfl, hfollow, hlength, hmatched⟩ := h
  refine ⟨cons_ne_nil _ _, fun c => not_or.1 fun hcomparable => ?_⟩
  obtain ⟨b₁, tail, ranges', hbytes, hfollow', hlength', hmatched'⟩ := followers_encodeChar c
  rw [hbytes, cons_append, cons_prefix_cons, cons_prefix_cons] at hcomparable
  have hfirst : b₁ = b₀ := hcomparable.elim (fun h => h.1.symm) And.left
  subst hfirst
  have hranges := Option.some.inj (hfollow'.symm.trans hfollow)
  subst hranges
  rw [length_append, length_cons] at hlength'
  obtain ⟨rest', rfl⟩ := exists_append_of_comparable (hcomparable.imp And.right And.right) (by omega)
  rw [matched_append_ranges hlength hmatched, matched, if_neg hb, length_append,
    length_cons] at hmatched'
  omega

theorem invalid_first (h : followers b.toNat = none) : Invalid (b :: rest) := by
  refine ⟨cons_ne_nil _ _, fun c => not_or.1 fun hcomparable => ?_⟩
  obtain ⟨b₁, tail, ranges, hbytes, hfollow, -⟩ := followers_encodeChar c
  rw [hbytes, cons_prefix_cons, cons_prefix_cons] at hcomparable
  have hfirst : b = b₁ := hcomparable.elim And.left fun h => h.1.symm
  rw [hfirst, hfollow] at h
  cases h

/-! ## Verdicts -/

theorem Verdict.shift (hc : String.utf8EncodeChar c = p) (h : Verdict (start + p.length) rest result) :
    Verdict start (p ++ rest) result := by
  subst hc
  have hlength : ∀ text, start + (String.utf8EncodeChar c).length + (encode text).length =
      start + (encode (c :: text)).length := by
    intro text
    rw [encode_cons, length_append, Nat.add_assoc]
  cases h with
  | valid text hbytes =>
    rw [hbytes, ← encode_cons]
    exact .valid (c :: text) rfl
  | incomplete text hbytes hrest =>
    rw [hbytes, ← append_assoc, ← encode_cons, hlength]
    exact .incomplete (c :: text) rfl hrest
  | invalid text hbytes hrest =>
    rw [hbytes, ← append_assoc, ← encode_cons, hlength]
    exact .invalid (c :: text) rfl hrest

theorem verdict_from (bytes : List UInt8) :
    (∀ start, Verdict start bytes (fromUtf8From start 0 [] bytes)) ∧
    ∀ start p range ranges, Expects p (range :: ranges) →
      Verdict start (p ++ bytes) (fromUtf8From start p.length (range :: ranges) bytes) := by
  induction bytes with
  | nil =>
    refine ⟨fun start => .valid [] rfl, fun start p range ranges h => ?_⟩
    rw [append_nil]
    exact .incomplete [] rfl h.incomplete
  | cons b rest ih =>
    constructor
    · intro start
      rw [fromUtf8From]
      split
      · next hnone => exact .invalid [] rfl (invalid_first hnone)
      · next hsome =>
        obtain ⟨c, hc⟩ := (Expects.first hsome).complete
        exact (ih.1 (start + 1)).shift hc
      · next ranges hnonempty hsome =>
        obtain ⟨range, ranges, rfl⟩ := exists_cons_of_ne_nil hnonempty
        exact ih.2 start [b] range ranges (.first hsome)
    · intro start p range ranges h
      have hlength : (p ++ [b]).length = p.length + 1 := length_append
      rw [fromUtf8From]
      split
      · next hb =>
        have hnext := h.next hb
        rw [append_cons, ← hlength, Nat.add_assoc, ← hlength]
        split
        · next hlast =>
          subst hlast
          obtain ⟨c, hc⟩ := hnext.complete
          exact (ih.1 (start + (p ++ [b]).length)).shift hc
        · next hmore =>
          obtain ⟨range, ranges, rfl⟩ := exists_cons_of_ne_nil hmore
          exact ih.2 start (p ++ [b]) range ranges hnext
      · next hb => exact .invalid [] rfl (h.invalid hb)

theorem fromUtf8_verdict (bytes : List UInt8) : Verdict 0 bytes (fromUtf8 bytes) := (verdict_from bytes).1 0

theorem Incomplete.length_le (h : Incomplete rest) : rest.length ≤ 3 := by
  obtain ⟨-, c, hbegins, hne⟩ := h
  have hlength : (String.utf8EncodeChar c).length ≤ 4 := by
    rw [String.length_utf8EncodeChar]
    exact c.utf8Size_le_four
  have hlt := hbegins.length_le
  have hneLength : rest.length ≠ (String.utf8EncodeChar c).length := fun h => hne (hbegins.eq_of_length h)
  omega

/-- What begins like no text makes no text, also behind one. -/
theorem not_valid_of_rest (hrest : Incomplete rest ∨ Invalid rest) :
    encode text ++ rest ≠ encode text' := by
  intro h
  have htext : text ++ lossy.decode rest = text' := by
    rw [← decode_encode_append, h, decode_encode]
  rw [← htext, encode_append, append_cancel_left_eq] at h
  generalize lossy.decode rest = t at h
  subst h
  cases t with
  | nil => exact hrest.elim (fun h => h.1 rfl) fun h => h.1 rfl
  | cons c t =>
    rw [encode_cons] at hrest
    rcases hrest with ⟨-, c', hbegins, hne⟩ | ⟨-, hinvalid⟩
    · have hchar := encodeChar_prefix ((prefix_append _ _).trans hbegins)
      subst hchar
      exact hne (hbegins.eq_of_length_le (prefix_append _ _).length_le)
    · exact (hinvalid c).2 (prefix_append _ _)

end

end Utf8
