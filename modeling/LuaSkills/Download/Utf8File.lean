import LuaSkills.Data.Fallible
import LuaSkills.Data.Utf8Checked

/-!
# Checking a file in chunks

`validate_file_utf8` reads a file into a fixed buffer and checks what each read returns. Bytes that end
inside a character are carried to the front of the next read. The check answers what it would answer for
the whole file, however the reads split it.
-/

namespace LuaSkills.Download

open List

def utf8BufferBytes : ℕ := 64 * 1024 + 3

/-- `u64::saturating_add`. -/
def saturatingAdd (a b : ℕ) : ℕ := min (a + b) (wordBound - 1)

/-- The loop between two reads: the bytes at the front of the buffer, and the number of those before. -/
structure Utf8Validation where
  carry : List UInt8 := []
  validatedBytes : ℕ := 0
deriving DecidableEq

/-- The part of the buffer that a read fills. -/
def Utf8Validation.slot (s : Utf8Validation) : ℕ := utf8BufferBytes - s.carry.length

def invalidSequence (path : String) (offset : ℕ) : String :=
  s!"Failed to decode {path} as UTF-8: invalid sequence at byte offset {offset}"

def incompleteSequence (path : String) (offset : ℕ) : String :=
  s!"Failed to decode {path} as UTF-8: incomplete sequence at byte offset {offset}"

/-- A read that returns bytes. -/
def Utf8Validation.round (path : String) (s : Utf8Validation) (chunk : List UInt8) :
    Except String Utf8Validation :=
  let available := s.carry ++ chunk
  match Utf8.fromUtf8 available with
  | .ok _ => .ok ⟨[], saturatingAdd s.validatedBytes available.length⟩
  | .error ⟨validUpTo, some _⟩ => .error (invalidSequence path (saturatingAdd s.validatedBytes validUpTo))
  | .error ⟨validUpTo, none⟩ =>
    let offset := saturatingAdd s.validatedBytes validUpTo
    if 3 < available.length - validUpTo then
      .error s!"Failed to decode {path} as UTF-8: invalid incomplete sequence at byte offset {offset}"
    else .ok ⟨available.drop validUpTo, offset⟩

/-- The read that returns nothing. -/
def Utf8Validation.finish (path : String) (s : Utf8Validation) : Except String Unit :=
  if s.carry.length = 0 then .ok () else .error (incompleteSequence path s.validatedBytes)

/-- The loop over what the reads answer; behind the last of them the file ends. -/
def validateReads (path : String) : List (Except String (List UInt8)) → Utf8Validation → Except String Unit
  | [], s | .ok [] :: _, s => s.finish path
  | .error error :: _, _ => .error s!"Failed to read {path}: {error}"
  | .ok chunk :: reads, s => do
    let s ← s.round path chunk
    validateReads path reads s

/-- `validate_file_utf8`: the file is what opening it answers, and then its reads. -/
def validateFileUtf8 (path : String) (file : Except String (List (Except String (List UInt8)))) :
    Except String Unit :=
  match file with
  | .error error => .error s!"Failed to read {path}: {error}"
  | .ok reads => validateReads path reads {}

/-! ## What has been read -/

/-- The loop behind some bytes: they are a text and what is carried. -/
def Utf8Validation.Behind (s : Utf8Validation) (bytes : List UInt8) : Prop :=
  ∃ text, bytes = Utf8.encode text ++ s.carry ∧
    s.validatedBytes = min (Utf8.encode text).length (wordBound - 1) ∧
    (s.carry = [] ∨ Utf8.Incomplete s.carry)

/-- Where the bytes cease to be a text, and the answer to that. -/
inductive Rejects (path : String) (bytes : List UInt8) : String → Prop where
  | invalid (text : List Char) (rest : List UInt8) :
    bytes = Utf8.encode text ++ rest → Utf8.Invalid rest →
    Rejects path bytes (invalidSequence path (min (Utf8.encode text).length (wordBound - 1)))
  | incomplete (text : List Char) (rest : List UInt8) :
    bytes = Utf8.encode text ++ rest → Utf8.Incomplete rest →
    Rejects path bytes (incompleteSequence path (min (Utf8.encode text).length (wordBound - 1)))

variable {path : String} {s s' : Utf8Validation} {bytes chunk more : List UInt8}
  {chunks : List (List UInt8)}

theorem saturatingAdd_min : saturatingAdd (min a (wordBound - 1)) b = min (a + b) (wordBound - 1) := by
  unfold saturatingAdd
  omega

theorem Utf8Validation.Behind.carry_le (h : s.Behind bytes) : s.carry.length ≤ 3 := by
  obtain ⟨text, -, -, hempty | hincomplete⟩ := h
  · rw [hempty]
    exact Nat.zero_le 3
  · exact hincomplete.length_le

/-- A read keeps the loop behind what has been read, or finds what is no text. -/
theorem Utf8Validation.Behind.round (h : s.Behind bytes) (path : String) (chunk : List UInt8) :
    (∃ s', s.round path chunk = .ok s' ∧ s'.Behind (bytes ++ chunk)) ∨
    ∃ text rest, bytes ++ chunk = Utf8.encode text ++ rest ∧ Utf8.Invalid rest ∧
      s.round path chunk =
        .error (invalidSequence path (min (Utf8.encode text).length (wordBound - 1))) := by
  obtain ⟨text₀, hbytes, hcount, -⟩ := h
  have hwhole : bytes ++ chunk = Utf8.encode text₀ ++ (s.carry ++ chunk) := by
    rw [hbytes, append_assoc]
  have hverdict := Utf8.fromUtf8_verdict (s.carry ++ chunk)
  unfold Utf8Validation.round
  dsimp only
  generalize Utf8.fromUtf8 (s.carry ++ chunk) = result at hverdict
  cases hverdict with
  | valid text hvalid =>
    refine .inl ⟨_, rfl, text₀ ++ text, ?_, ?_, .inl rfl⟩
    · rw [hwhole, hvalid, Utf8.encode_append, append_nil]
    · rw [hcount, saturatingAdd_min, hvalid, Utf8.encode_append, length_append]
  | @incomplete text rest havailable hrest =>
    rw [Nat.zero_add]
    have hdrop : (s.carry ++ chunk).drop (Utf8.encode text).length = rest := by
      rw [havailable, drop_left]
    have hlength : (s.carry ++ chunk).length - (Utf8.encode text).length = rest.length := by
      rw [← length_drop, hdrop]
    have hshort := hrest.length_le
    dsimp only
    rw [hlength, if_neg (Nat.not_lt.2 hshort), hdrop]
    refine .inl ⟨_, rfl, text₀ ++ text, ?_, ?_, .inr hrest⟩
    · rw [hwhole, havailable, Utf8.encode_append, append_assoc]
    · rw [hcount, saturatingAdd_min, Utf8.encode_append, length_append]
  | @invalid text rest n havailable hrest =>
    rw [Nat.zero_add]
    refine .inr ⟨text₀ ++ text, rest, ?_, hrest, ?_⟩
    · rw [hwhole, havailable, Utf8.encode_append, append_assoc]
    · dsimp only
      rw [hcount, saturatingAdd_min, Utf8.encode_append, length_append]

theorem Utf8Validation.Behind.start : Utf8Validation.Behind {} [] := ⟨[], rfl, rfl, .inl rfl⟩

theorem Utf8Validation.Behind.rounds (h : s.Behind bytes)
    (hrounds : chunks.foldlM (Utf8Validation.round path) s = .ok s') :
    s'.Behind (bytes ++ chunks.flatten) := by
  induction chunks generalizing s bytes with
  | nil =>
    cases hrounds
    rw [flatten_nil, append_nil]
    exact h
  | cons chunk chunks ih =>
    rw [foldlM_cons] at hrounds
    obtain ⟨s₁, hround, hrest⟩ := Except.bind_eq_ok.1 hrounds
    rw [flatten_cons, ← append_assoc]
    rcases h.round path chunk with ⟨s₂, hround', h'⟩ | ⟨text, rest, -, -, herror⟩
    · rw [hround'] at hround
      cases hround
      exact ih h' hrest
    · rw [herror] at hround
      cases hround

/-- The answer to bytes: they are a text, or the error says where they cease to be one. -/
def Answers (path : String) (bytes : List UInt8) : Except String Unit → Prop
  | .ok _ => ∃ text, bytes = Utf8.encode text
  | .error message => Rejects path bytes message

theorem Utf8Validation.Behind.finish (h : s.Behind bytes) : Answers path bytes (s.finish path) := by
  obtain ⟨text, hbytes, hcount, hcarry⟩ := h
  unfold Utf8Validation.finish
  split
  · next hempty =>
    rw [length_eq_zero_iff.1 hempty, append_nil] at hbytes
    exact ⟨text, hbytes⟩
  · next hne =>
    have hincomplete := hcarry.resolve_left fun h => hne (congrArg length h)
    rw [hcount]
    exact .incomplete text s.carry hbytes hincomplete

/-- What cannot go on stays so, whatever follows. -/
theorem invalid_append (h : Utf8.Invalid rest) : Utf8.Invalid (rest ++ more) := by
  refine ⟨append_ne_nil_of_left_ne_nil h.1 more, fun c => ⟨fun hprefix => ?_, fun hprefix => ?_⟩⟩
  · exact (h.2 c).1 ((prefix_append rest more).trans hprefix)
  · rcases prefix_or_prefix_of_prefix hprefix (prefix_append rest more) with hshort | hlong
    · exact (h.2 c).2 hshort
    · exact (h.2 c).1 hlong

theorem Utf8Validation.Behind.reads (h : s.Behind bytes) (path : String)
    (hchunks : ∀ chunk ∈ chunks, chunk ≠ []) :
    Answers path (bytes ++ chunks.flatten) (validateReads path (chunks.map .ok) s) := by
  induction chunks generalizing s bytes with
  | nil =>
    rw [flatten_nil, append_nil]
    exact h.finish
  | cons chunk chunks ih =>
    obtain ⟨hchunk, hrest⟩ := forall_mem_cons.1 hchunks
    obtain ⟨b, tail, rfl⟩ := exists_cons_of_ne_nil hchunk
    rw [flatten_cons, ← append_assoc]
    change Answers path _ (s.round path (b :: tail) >>= validateReads path (chunks.map .ok))
    rcases h.round path (b :: tail) with ⟨s', hround, h'⟩ | ⟨text, rest, hbytes, hinvalid, herror⟩
    · rw [hround]
      exact ih h' hrest
    · rw [herror, hbytes, append_assoc]
      exact .invalid text (rest ++ chunks.flatten) rfl (invalid_append hinvalid)

/-- However the reads split a file: the check accepts it exactly when it is a text, an error says where
the first sequence begins that is invalid or incomplete, at most three bytes are carried, and no read is
given an empty buffer. -/
theorem validate_chunks (path : String) (chunks : List (List UInt8))
    (hchunks : ∀ chunk ∈ chunks, chunk ≠ []) :
    (validateFileUtf8 path (.ok (chunks.map .ok)) = .ok () ↔ ∃ text, chunks.flatten = Utf8.encode text) ∧
    (∀ message, validateFileUtf8 path (.ok (chunks.map .ok)) = .error message →
      Rejects path chunks.flatten message) ∧
    ∀ n s, (chunks.take n).foldlM (Utf8Validation.round path) {} = .ok s →
      s.carry.length ≤ 3 ∧ 0 < s.slot := by
  have hanswers : Answers path chunks.flatten (validateFileUtf8 path (.ok (chunks.map .ok))) :=
    Utf8Validation.Behind.start.reads path hchunks
  refine ⟨⟨fun haccepts => ?_, fun htext => ?_⟩, fun message herror => ?_, fun n s hrounds => ?_⟩
  · rwa [haccepts] at hanswers
  · generalize validateFileUtf8 path (.ok (chunks.map .ok)) = answer at hanswers
    cases answer with
    | ok _ => rfl
    | error message =>
      obtain ⟨text', htext'⟩ := htext
      cases hanswers with
      | invalid text rest hbytes hrest =>
        exact absurd (hbytes.symm.trans htext') (Utf8.not_valid_of_rest (.inr hrest))
      | incomplete text rest hbytes hrest =>
        exact absurd (hbytes.symm.trans htext') (Utf8.not_valid_of_rest (.inl hrest))
  · rwa [herror] at hanswers
  · have hcarry := (Utf8Validation.Behind.start.rounds hrounds).carry_le
    refine ⟨hcarry, ?_⟩
    unfold Utf8Validation.slot utf8BufferBytes
    omega

/-- A letter in three reads. -/
theorem validate_chunks_euro :
    (validateFileUtf8 "euro.txt" (.ok ([[0xE2], [0x82], [0xAC]].map .ok)) = .ok () ↔
      ∃ text, [[0xE2], [0x82], [0xAC]].flatten = Utf8.encode text) ∧
    (∀ message, validateFileUtf8 "euro.txt" (.ok ([[0xE2], [0x82], [0xAC]].map .ok)) = .error message →
      Rejects "euro.txt" [[0xE2], [0x82], [0xAC]].flatten message) ∧
    ∀ n s, ([[0xE2], [0x82], [0xAC]].take n).foldlM (Utf8Validation.round "euro.txt") {} = .ok s →
      s.carry.length ≤ 3 ∧ 0 < s.slot :=
  validate_chunks "euro.txt" [[0xE2], [0x82], [0xAC]] (by decide)

end LuaSkills.Download
