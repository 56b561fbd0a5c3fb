import LuaSkills.Ffi.JsonGuard
import Mathlib.Tactic.NormNum

/-!
# The two views of a request agree

The scanner knows nothing of the grammar: it tells strings from the rest and collects runs of number
bytes. On the text of a document it still inspects the document's number tokens, each where it stands,
and nothing else. `Passes` is what it does on a piece of text whatever follows; a value that ends in a
number `Scans` only in front of something that is no part of a number, and in a document it always
stands so.
-/

namespace LuaSkills.Ffi.Guard

open Transport

variable {bytes rest text text' : List UInt8} {i : ℕ}

/-! ## Tokens -/

section
variable {t : NumberToken}

theorem isSome_readMagnitude (overflow : IntErrorKind) (digits : Digits) :
    (readMagnitude bound overflow 0 digits.chars).toOption.isSome = true ↔ digits.value ≤ bound := by
  rw [Digits.value_eq]
  constructor
  · intro h
    cases hread : readMagnitude bound overflow 0 digits.chars with
    | error e =>
      rw [hread] at h
      cases h
    | ok n =>
      obtain ⟨-, hn, hle⟩ := of_readMagnitude hread (Nat.zero_le _)
      exact hn ▸ hle
  · intro h
    rw [readMagnitude_of_le (fun _ => Digits.isDigit_of_mem) h]
    rfl

theorem chars_of_isInteger (h : t.IsInteger) :
    t.chars = (if t.negative then ['-'] else []) ++ t.whole.chars := by
  rw [NumberToken.chars, h.1, h.2, List.append_nil, List.append_nil]

theorem mark_iff :
    (t.text.toList.any fun c => c = '.' || c = 'e' || c = 'E') = true ↔ ¬ t.IsInteger := by
  rw [NumberToken.text, String.toList_ofList, List.any_eq_true]
  constructor
  · rintro ⟨c, hc, hmark⟩ hint
    rw [chars_of_isInteger hint] at hc
    rcases List.mem_append.1 hc with hc | hc
    · split at hc
      · rw [List.mem_singleton.1 hc] at hmark
        exact absurd hmark (by decide)
      · cases hc
    · have hdigit := Digits.isDigit_of_mem hc
      have hcases : c = '.' ∨ c = 'e' ∨ c = 'E' := by simpa [or_assoc] using hmark
      rcases hcases with rfl | rfl | rfl
      all_goals exact absurd hdigit (by decide)
  · intro hint
    rw [NumberToken.chars]
    cases hfraction : t.fraction with
    | some digits =>
      refine ⟨'.', ?_, rfl⟩
      exact List.mem_append_left _ (List.mem_append_right _ List.mem_cons_self)
    | none =>
      cases hexponent : t.exponent with
      | none => exact absurd ⟨hfraction, hexponent⟩ hint
      | some e =>
        refine ⟨if e.upper then 'E' else 'e', ?_, ?_⟩
        · exact List.mem_append_right _ List.mem_cons_self
        · cases e.upper <;> rfl

theorem head_chars_of_nonneg (hneg : t.negative = false) :
    ∃ d cs, t.chars = Digits.digit d :: cs := by
  rw [NumberToken.chars, hneg]
  exact ⟨_, _, rfl⟩

theorem digit_ne_minus : ∀ d : Fin 10, Digits.digit d ≠ '-' := by decide

theorem checkToken_text (t : NumberToken) :
    checkToken t.text = if t.Fits then .ok () else .error .invalidArgument := by
  unfold checkToken
  by_cases hint : t.IsInteger
  · rw [if_neg (mt mark_iff.1 (not_not.2 hint))]
    cases hneg : t.negative with
    | true =>
      have htext : t.text.toList = '-' :: t.whole.chars := by
        rw [NumberToken.text, String.toList_ofList, chars_of_isInteger hint, hneg]
        rfl
      have hparse : parseI64 t.text =
          (readMagnitude (2 ^ 63) .negOverflow 0 t.whole.chars).map fun n => -Int.ofNat n := by
        unfold parseI64
        rw [htext]
        rfl
      have hvalid : (parseI64 t.text).toOption.isSome = true ↔ t.Fits := by
        rw [hparse, NumberToken.fits_of_negative hint hneg, ← isSome_readMagnitude .negOverflow]
        cases readMagnitude (2 ^ 63) .negOverflow 0 t.whole.chars <;> rfl
      rw [htext, List.head?_cons, if_pos rfl]
      exact if_congr hvalid rfl rfl
    | false =>
      have htext : t.text.toList = t.whole.chars := by
        rw [NumberToken.text, String.toList_ofList, chars_of_isInteger hint, hneg]
        rfl
      have hne : t.text ≠ "" := by
        intro h
        rw [h] at htext
        cases htext
      have hparse : parseU64 t.text = readMagnitude (2 ^ 64 - 1) .posOverflow 0 t.whole.chars := by
        rw [parseU64_of_digits hne (fun c hc => Digits.isDigit_of_mem (htext ▸ hc)), htext]
      have hvalid : (parseU64 t.text).toOption.isSome = true ↔ t.Fits := by
        rw [hparse, NumberToken.fits_of_nonneg hint hneg, isSome_readMagnitude]
        omega
      have hhead : t.text.toList.head? ≠ some '-' := by
        rw [htext]
        exact fun h => digit_ne_minus _ (Option.some.inj h)
      rw [if_neg hhead]
      exact if_congr hvalid rfl rfl
  · have hfits : t.Fits := fun h => absurd h hint
    rw [if_pos (mark_iff.2 hint), if_pos hfits]

end

/-! ## Positions -/

theorem getElem?_of_drop {b : UInt8} (h : bytes.drop i = b :: rest) : bytes[i]? = some b := by
  rw [← Nat.add_zero i, ← List.getElem?_drop, h]
  rfl

theorem drop_succ_of_drop {b : UInt8} (h : bytes.drop i = b :: rest) : bytes.drop (i + 1) = rest := by
  rw [← List.drop_drop, h]
  rfl

theorem drop_add_of_drop (h : bytes.drop i = text ++ rest) : bytes.drop (i + text.length) = rest := by
  rw [← List.drop_drop, h, List.drop_left]

/-- What follows a number: nothing that could belong to it. -/
def Detached (rest : List UInt8) : Prop := ∀ b, rest.head? = some b → ¬ InNumber b

theorem numberEnd_run (hin : ∀ b ∈ text, InNumber b) (hrest : Detached rest)
    (h : bytes.drop i = text ++ rest) : numberEnd bytes i = i + text.length := by
  induction text generalizing i with
  | nil =>
    rw [numberEnd]
    split
    · next hlt =>
      have hhead : rest.head? = some bytes[i] := by
        rw [← List.nil_append rest, ← h, List.head?_drop, List.getElem?_eq_getElem hlt]
      exact if_neg (hrest _ hhead)
    · rfl
  | cons b text ih =>
    obtain ⟨hlt, hb⟩ := List.getElem?_eq_some_iff.1 (getElem?_of_drop h)
    have hnext := ih (fun b hb => hin b (List.mem_cons_of_mem _ hb)) (drop_succ_of_drop h)
    rw [numberEnd, dif_pos hlt, hb, if_pos (hin b List.mem_cons_self), hnext, List.length_cons]
    omega

/-! ## Strings -/

/-- Bytes that end no string and escape nothing. -/
def Plain (text : List UInt8) : Prop := ∀ b ∈ text, b ≠ Utf8.byte '"' ∧ b ≠ Utf8.byte '\\'

theorem plain_encode {chars : List Char} (h : ∀ c ∈ chars, c ≠ '"' ∧ c ≠ '\\') :
    Plain (Utf8.encode chars) := by
  intro b hb
  obtain ⟨c, hc, hbc⟩ := List.mem_flatMap.1 hb
  constructor
  · rintro rfl
    exact (h c hc).1 (Utf8.eq_of_byte_mem (by decide) hbc)
  · rintro rfl
    exact (h c hc).2 (Utf8.eq_of_byte_mem (by decide) hbc)

theorem stringEnd_plain (hplain : Plain text) (h : bytes.drop i = text ++ rest) :
    stringEnd bytes i = stringEnd bytes (i + text.length) := by
  induction text generalizing i with
  | nil => rfl
  | cons b text ih =>
    obtain ⟨hquote, hslash⟩ := hplain b List.mem_cons_self
    have hnext := ih (fun b hb => hplain b (List.mem_cons_of_mem _ hb)) (drop_succ_of_drop h)
    have hstep : stringEnd bytes i = stringEnd bytes (i + 1) := by
      rw [stringEnd, getElem?_of_drop h]
      simp only [if_neg hquote, if_neg hslash]
    rw [hstep, hnext, List.length_cons, Nat.add_right_comm, Nat.add_assoc]

/-- The byte behind a backslash is not looked at. -/
theorem stringEnd_escape {b : UInt8} (h : bytes.drop i = Utf8.byte '\\' :: b :: rest) :
    stringEnd bytes i = stringEnd bytes (i + 2) := by
  rw [stringEnd, getElem?_of_drop h]
  rfl

theorem hexDigit_plain (d : HexDigit) : d.char ≠ '"' ∧ d.char ≠ '\\' := by
  have hall : ∀ (v : Fin 16) (upper : Bool), (HexDigit.mk v upper).char ≠ '"' ∧
      (HexDigit.mk v upper).char ≠ '\\' := by decide
  exact hall d.value d.upper

theorem stringEnd_quad (q : HexQuad) (h : bytes.drop i = Utf8.encode ('\\' :: q.chars) ++ rest) :
    stringEnd bytes i = stringEnd bytes (i + (Utf8.encode ('\\' :: q.chars)).length) := by
  let hex := [q.first.char, q.second.char, q.third.char, q.fourth.char]
  have hplain : Plain (Utf8.encode hex) := by
    refine plain_encode fun c hc => ?_
    simp only [hex, List.mem_cons, List.not_mem_nil, or_false] at hc
    rcases hc with rfl | rfl | rfl | rfl
    all_goals exact hexDigit_plain _
  have hbytes : Utf8.encode ('\\' :: q.chars) = Utf8.byte '\\' :: Utf8.byte 'u' :: Utf8.encode hex := rfl
  rw [hbytes] at h ⊢
  have hhex : bytes.drop (i + 2) = Utf8.encode hex ++ rest := drop_succ_of_drop (drop_succ_of_drop h)
  rw [stringEnd_escape h, stringEnd_plain hplain hhex, List.length_cons, List.length_cons]
  congr 1
  omega

theorem stringEnd_piece (piece : StringPiece) (h : bytes.drop i = Utf8.encode piece.chars ++ rest) :
    stringEnd bytes i = stringEnd bytes (i + (Utf8.encode piece.chars).length) := by
  cases piece with
  | raw c plain =>
    refine stringEnd_plain (plain_encode fun c' hc' => ?_) h
    rw [List.mem_singleton.1 hc']
    exact plain.2
  | short e =>
    have hbytes : Utf8.encode (StringPiece.short e).chars = [Utf8.byte '\\', Utf8.byte e.letter] := by
      cases e <;> rfl
    rw [hbytes] at h ⊢
    exact stringEnd_escape h
  | unit q scalar => exact stringEnd_quad q h
  | pair high low surrogates =>
    have hbytes : Utf8.encode (StringPiece.pair high low surrogates).chars =
        Utf8.encode ('\\' :: high.chars) ++ Utf8.encode ('\\' :: low.chars) :=
      Utf8.encode_append ('\\' :: high.chars) ('\\' :: low.chars)
    rw [hbytes, List.append_assoc] at h
    rw [hbytes, List.length_append, ← Nat.add_assoc, ← stringEnd_quad low (drop_add_of_drop h),
      ← stringEnd_quad high h]

theorem stringEnd_body (s : StringText) (h : bytes.drop i = s.body ++ rest) :
    stringEnd bytes i = some (i + s.body.length) := by
  induction s generalizing i with
  | nil =>
    rw [stringEnd, getElem?_of_drop h]
    rfl
  | cons piece s ih =>
    have hbody : StringText.body (piece :: s) = Utf8.encode piece.chars ++ StringText.body s := by
      rw [StringText.body, List.flatMap_cons, Utf8.encode_append, List.append_assoc]
      rfl
    rw [hbody, List.append_assoc] at h
    rw [hbody, stringEnd_piece piece h, ih (drop_add_of_drop h), List.length_append, Nat.add_assoc]

/-! ## Pieces of text -/

/-- The checks of tokens one after the other, and what comes after them. -/
def inspect : List (ℕ × NumberToken) → List (ℕ × List UInt8) → (List (ℕ × List UInt8) → Scan) → Scan
  | [], seen, next => next seen
  | (start, t) :: rest, seen, next =>
    if t.Fits then inspect rest (seen ++ [(start, t.bytes)]) next
    else ⟨seen ++ [(start, t.bytes)], .refused .invalidArgument⟩

theorem inspect_append {l : List (ℕ × NumberToken)} :
    inspect (l ++ l') seen next = inspect l seen fun seen => inspect l' seen next := by
  induction l generalizing seen with
  | nil => rfl
  | cons e l ih =>
    rw [List.cons_append, inspect, inspect, ih]

/-- The scanner inspects the tokens of a text and goes on behind it. -/
def PassesBefore (rest text : List UInt8) (tokens : ℕ → List (ℕ × NumberToken)) : Prop :=
  ∀ bytes i seen, bytes.drop i = text ++ rest →
    scan bytes i seen = inspect (tokens i) seen (scan bytes (i + text.length))

def Passes (text : List UInt8) (tokens : ℕ → List (ℕ × NumberToken)) : Prop :=
  ∀ rest, PassesBefore rest text tokens

def Scans (text : List UInt8) (tokens : ℕ → List (ℕ × NumberToken)) : Prop :=
  ∀ rest, Detached rest → PassesBefore rest text tokens

section
variable {tokens tokens' : ℕ → List (ℕ × NumberToken)}

theorem PassesBefore.append (h : PassesBefore (text' ++ rest) text tokens)
    (h' : PassesBefore rest text' tokens') :
    PassesBefore rest (text ++ text') fun i => tokens i ++ tokens' (i + text.length) := by
  intro bytes i seen hdrop
  rw [List.append_assoc] at hdrop
  rw [h bytes i seen hdrop, inspect_append, List.length_append, ← Nat.add_assoc]
  congr 1
  funext seen
  exact h' bytes _ seen (drop_add_of_drop hdrop)

theorem Passes.scans (h : Passes text tokens) : Scans text tokens := fun rest _ => h rest

theorem Passes.append (h : Passes text tokens) (h' : Passes text' tokens') :
    Passes (text ++ text') fun i => tokens i ++ tokens' (i + text.length) :=
  fun rest => (h (text' ++ rest)).append (h' rest)

/-- A value in front of something that starts with no number byte. -/
theorem Scans.append (h : Scans text tokens) (hopens : ∃ b text₀, text' = b :: text₀ ∧ ¬ InNumber b)
    (h' : Passes text' tokens') :
    Passes (text ++ text') fun i => tokens i ++ tokens' (i + text.length) := by
  intro rest
  obtain ⟨b, text₀, rfl, hb⟩ := hopens
  refine (h _ fun b' hb' => ?_).append (h' rest)
  cases hb'
  exact hb

end

def Quiet (text : List UInt8) : Prop := ∀ b ∈ text, b ≠ Utf8.byte '"' ∧ ¬ StartsNumber b

instance {text : List UInt8} : Decidable (Quiet text) :=
  List.decidableBAll (fun b => b ≠ Utf8.byte '"' ∧ ¬ StartsNumber b) text

theorem Quiet.append (h : Quiet text) (h' : Quiet text') : Quiet (text ++ text') :=
  fun b hb => (List.mem_append.1 hb).elim (h b) (h' b)

theorem Quiet.passes (h : Quiet text) : Passes text fun _ => [] := by
  intro rest bytes i seen hdrop
  change scan bytes i seen = scan bytes (i + text.length) seen
  induction text generalizing i with
  | nil => rfl
  | cons b text ih =>
    obtain ⟨hquote, hstart⟩ := h b List.mem_cons_self
    obtain ⟨hlt, hb⟩ := List.getElem?_eq_some_iff.1 (getElem?_of_drop hdrop)
    have hnext := ih (fun b hb => h b (List.mem_cons_of_mem _ hb)) (i + 1) (drop_succ_of_drop hdrop)
    have hstep : scan bytes i seen = scan bytes (i + 1) seen := by
      rw [scan, dif_pos hlt, hb, if_neg hquote, dif_neg hstart]
    rw [hstep, hnext, List.length_cons, Nat.add_right_comm, Nat.add_assoc]

/-- A value in front of quiet text that ends it. -/
theorem Scans.append_quiet (h : Scans text tokens) (hopens : ∃ b text₀, text' = b :: text₀ ∧ ¬ InNumber b)
    (h' : Quiet text') : Passes (text ++ text') tokens := by
  have happend := h.append hopens h'.passes
  simpa only [List.append_nil] using happend

theorem quiet_gap (gap : Gap) : Quiet gap.bytes := by
  intro b hb
  obtain ⟨s, -, rfl⟩ := List.mem_map.1 hb
  cases s <;> decide

theorem not_inNumber_space (s : JsonSpace) : ¬ InNumber (Utf8.byte s.char) := by
  cases s <;> decide

/-- White space and a punctuation mark, in front of which a value stands. -/
theorem opens_gap (gap : Gap) (hb : ¬ InNumber b) :
    ∃ b' text₀, gap.bytes ++ [b] = b' :: text₀ ∧ ¬ InNumber b' := by
  cases gap with
  | nil => exact ⟨b, [], rfl, hb⟩
  | cons s gap => exact ⟨_, _, rfl, not_inNumber_space s⟩

theorem passes_string (s : StringText) : Passes s.bytes fun _ => [] := by
  intro rest bytes i seen hdrop
  obtain ⟨hlt, hb⟩ := List.getElem?_eq_some_iff.1 (getElem?_of_drop hdrop)
  have hend := stringEnd_body s (drop_succ_of_drop hdrop)
  rw [scan, dif_pos hlt, hb, if_pos rfl]
  split
  · next hnone => cases hnone.symm.trans hend
  · next hsome =>
    cases hsome.symm.trans hend
    rw [inspect, StringText.bytes, List.length_cons, Nat.add_assoc, Nat.add_comm 1]

theorem passes_memberHead (before : Gap) (key : StringText) (colon : Gap × Gap) :
    Passes (memberHead before key colon) fun _ => [] := by
  have hmark : Quiet [Utf8.byte ':'] := by decide
  have hcolon : Quiet (colon.1.bytes ++ Utf8.byte ':' :: colon.2.bytes) :=
    (quiet_gap colon.1).append (hmark.append (quiet_gap colon.2))
  exact (quiet_gap before).passes.append ((passes_string key).append hcolon.passes)

/-! ## Numbers -/

def NumberChar (c : Char) : Prop := c.toNat < 128 ∧ InNumber (Utf8.byte c)

instance {c : Char} : Decidable (NumberChar c) := inferInstanceAs (Decidable (_ ∧ _))

theorem numberChar_digit : ∀ d : Fin 10, NumberChar (Digits.digit d) := by decide

theorem startsNumber_digit : ∀ d : Fin 10, StartsNumber (Utf8.byte (Digits.digit d)) := by decide

theorem numberChar_digits {digits : Digits} (hc : c ∈ digits.chars) : NumberChar c := by
  obtain ⟨d, -, rfl⟩ := List.mem_map.1 hc
  exact numberChar_digit d

theorem numberChar_exponent {e : Exponent} (hc : c ∈ e.chars) : NumberChar c := by
  rcases List.mem_cons.1 hc with rfl | hc
  · cases e.upper <;> decide
  rcases List.mem_append.1 hc with hc | hc
  · cases hsign : e.sign with
    | none =>
      rw [hsign] at hc
      cases hc
    | some minus =>
      rw [hsign] at hc
      rw [List.mem_singleton.1 hc]
      cases minus <;> decide
  · exact numberChar_digits hc

theorem numberChar_of_mem {t : NumberToken} (hc : c ∈ t.chars) : NumberChar c := by
  rcases List.mem_append.1 hc with hc | hc
  · rcases List.mem_append.1 hc with hc | hc
    · rcases List.mem_append.1 hc with hc | hc
      · split at hc
        · rw [List.mem_singleton.1 hc]
          decide
        · cases hc
      · exact numberChar_digits hc
    · split at hc
      · cases hc
      · rcases List.mem_cons.1 hc with rfl | hc
        · decide
        · exact numberChar_digits hc
  · split at hc
    · cases hc
    · exact numberChar_exponent hc

theorem inNumber_of_mem {t : NumberToken} (hb : b ∈ t.bytes) : InNumber b := by
  rw [NumberToken.bytes, Utf8.encode_ascii fun c hc => (numberChar_of_mem hc).1] at hb
  obtain ⟨c, hc, rfl⟩ := List.mem_map.1 hb
  exact (numberChar_of_mem hc).2

/-- A token starts with a minus sign or a digit. -/
theorem startsNumber_head (t : NumberToken) :
    ∃ b text₀, t.bytes = b :: text₀ ∧ b ≠ Utf8.byte '"' ∧ StartsNumber b := by
  rw [NumberToken.bytes, Utf8.encode_ascii fun c hc => (numberChar_of_mem hc).1]
  cases hneg : t.negative with
  | true =>
    rw [NumberToken.chars, hneg]
    exact ⟨Utf8.byte '-', _, rfl, by decide, by decide⟩
  | false =>
    obtain ⟨d, cs, hchars⟩ := head_chars_of_nonneg hneg
    rw [hchars]
    refine ⟨Utf8.byte (Digits.digit d), _, rfl, ?_, startsNumber_digit d⟩
    intro hquote
    have hstart := startsNumber_digit d
    rw [hquote] at hstart
    exact absurd hstart (by decide)

theorem scans_number (t : NumberToken) : Scans t.bytes fun i => [(i, t)] := by
  intro rest hrest bytes i seen hdrop
  have hend := numberEnd_run (fun b => inNumber_of_mem) hrest hdrop
  obtain ⟨b, text₀, hcons, hquote, hstart⟩ := startsNumber_head t
  have hdrop' := hdrop
  rw [hcons] at hdrop'
  obtain ⟨hlt, hb⟩ := List.getElem?_eq_some_iff.1 (getElem?_of_drop hdrop')
  have htoken : (bytes.drop i).take (i + t.bytes.length - i) = t.bytes := by
    rw [hdrop, Nat.add_sub_cancel_left, List.take_left]
  have hcheck : (Utf8.decode? t.bytes).elim (.error .invalidArgument) checkToken =
      if t.Fits then .ok () else .error .invalidArgument := by
    rw [NumberToken.bytes, Utf8.decode?_encode]
    exact checkToken_text t
  rw [scan, dif_pos hlt, if_neg (hb ▸ hquote), dif_pos (hb ▸ hstart)]
  simp only [hend, htoken]
  rw [inspect, inspect]
  by_cases hfits : t.Fits
  · simp only [hcheck, if_pos hfits]
  · simp only [hcheck, if_neg hfits]

/-! ## Documents -/

theorem quiet_close (gap : Gap) (hb : Quiet [b]) : Quiet (gap.bytes ++ [b]) :=
  (quiet_gap gap).append hb

/-- A value and the mark that ends it. -/
theorem Scans.closed (h : Scans text tokens) (after : Gap) (hnumber : ¬ InNumber b) (hb : Quiet [b]) :
    Passes (text ++ (after.bytes ++ [b])) tokens :=
  h.append_quiet (opens_gap after hnumber) (quiet_close after hb)

mutual
theorem scans_text : ∀ v : JsonTree, Scans v.bytes v.numbersAt
  | .null => by
    have hquiet : Quiet JsonTree.null.bytes := by decide
    exact hquiet.passes.scans
  | .bool b => by
    have hquiet : Quiet (JsonTree.bool b).bytes := by cases b <;> decide
    exact hquiet.passes.scans
  | .number t => scans_number t
  | .string s => (passes_string s).scans
  | .emptyArray gap => by
    have hopen : Quiet [Utf8.byte '['] := by decide
    exact (hopen.append (quiet_close gap (by decide))).passes.scans
  | .array items => by
    have hopen : Quiet [Utf8.byte '['] := by decide
    exact (hopen.passes.append (passes_items items)).scans
  | .emptyObject gap => by
    have hopen : Quiet [Utf8.byte '{'] := by decide
    exact (hopen.append (quiet_close gap (by decide))).passes.scans
  | .object members => by
    have hopen : Quiet [Utf8.byte '{'] := by decide
    exact (hopen.passes.append (passes_members members)).scans

theorem passes_items : ∀ items : JsonItems, Passes items.bytes items.numbersAt
  | .last before value after =>
    (quiet_gap before).passes.append ((scans_text value).closed after (by decide) (by decide))
  | .more before value after rest =>
    (quiet_gap before).passes.append
      (((scans_text value).closed after (by decide) (by decide)).append (passes_items rest))

theorem passes_members : ∀ members : JsonMembers, Passes members.bytes members.numbersAt
  | .last before key colon value after =>
    (passes_memberHead before key colon).append
      ((scans_text value).closed after (by decide) (by decide))
  | .more before key colon value after rest =>
    (passes_memberHead before key colon).append
      (((scans_text value).closed after (by decide) (by decide)).append (passes_members rest))
end

theorem detached_gap (gap : Gap) : Detached gap.bytes := by
  intro b hb
  cases gap with
  | nil => cases hb
  | cons s gap =>
    cases hb
    exact not_inNumber_space s

/-- On a document the scanner inspects its number tokens, in order, and nothing else. -/
theorem scan_document (doc : JsonDocument) :
    scan doc.bytes 0 [] = inspect doc.numbers [] fun seen => ⟨seen, .accepted⟩ := by
  have hafter : PassesBefore [] doc.after.bytes fun _ => [] := (quiet_gap doc.after).passes []
  have hvalue : PassesBefore (doc.after.bytes ++ []) doc.value.bytes doc.value.numbersAt :=
    scans_text doc.value _ (by simpa only [List.append_nil] using detached_gap doc.after)
  have hbefore := (quiet_gap doc.before).passes (doc.value.bytes ++ doc.after.bytes ++ [])
  have hdoc : PassesBefore [] doc.bytes _ := hbefore.append (hvalue.append hafter)
  rw [hdoc doc.bytes 0 [] (List.append_nil _).symm]
  simp only [List.nil_append, List.append_nil, Nat.zero_add]
  congr 1
  funext seen
  rw [scan, dif_neg (Nat.lt_irrefl _)]

/-- The tokens up to the first that does not fit. -/
def upToRefusal (tokens : List (ℕ × NumberToken)) : List (ℕ × NumberToken) :=
  tokens.takeWhile (fun e => e.2.Fits) ++ (tokens.dropWhile fun e => e.2.Fits).head?.toList

theorem inspect_eq (tokens : List (ℕ × NumberToken)) (seen : List (ℕ × List UInt8)) :
    inspect tokens seen (fun seen => ⟨seen, .accepted⟩) =
      ⟨seen ++ (upToRefusal tokens).map fun e => (e.1, e.2.bytes),
        if ∀ e ∈ tokens, e.2.Fits then .accepted else .refused .invalidArgument⟩ := by
  induction tokens generalizing seen with
  | nil => simp [inspect, upToRefusal]
  | cons e tokens ih =>
    rw [inspect]
    by_cases hfits : e.2.Fits
    · have hall : (∀ e' ∈ e :: tokens, e'.2.Fits) ↔ ∀ e' ∈ tokens, e'.2.Fits :=
        List.forall_mem_cons.trans (and_iff_right hfits)
      rw [if_pos hfits, ih, if_congr hall rfl rfl]
      simp [upToRefusal, hfits]
    · have hall : ¬ ∀ e' ∈ e :: tokens, e'.2.Fits := fun h => hfits (h e List.mem_cons_self)
      rw [if_neg hfits, if_neg hall]
      simp [upToRefusal, hfits]

/-! ## The visitor -/

section
variable {serde : SerdeJson}

theorem visitNumber_eq_ok : UniqueJson.visitNumber d = .ok u ↔ d.value.isSome = true := by
  cases d with
  | u64 n | i64 i => exact ⟨fun _ => rfl, fun _ => rfl⟩
  | f64 bits =>
    rw [UniqueJson.visitNumber]
    split
    · next h => exact ⟨fun _ => h, fun _ => rfl⟩
    · next h => exact ⟨fun hok => (nomatch hok), fun hsome => absurd hsome h⟩

def AllFinite (serde : SerdeJson) (tokens : List (ℕ × NumberToken)) : Prop :=
  ∀ e ∈ tokens, (serde.deliver e.2).value.isSome = true

theorem allFinite_append {l : List (ℕ × NumberToken)} :
    AllFinite serde (l ++ l') ↔ AllFinite serde l ∧ AllFinite serde l' := List.forall_mem_append

/-- Objects without repeated members. -/
def AllUnique (objects : List (List String)) : Prop := ∀ keys ∈ objects, keys.Nodup

theorem allUnique_cons {keys : List String} :
    AllUnique (keys :: l) ↔ keys.Nodup ∧ AllUnique l := List.forall_mem_cons

theorem allUnique_append {l : List (List String)} :
    AllUnique (l ++ l') ↔ AllUnique l ∧ AllUnique l' := List.forall_mem_append

/-- The object's keys are distinct, from one another and from those before them. -/
def Fresh (seen keys : List String) : Prop := keys.Nodup ∧ ∀ key ∈ keys, key ∉ seen

theorem fresh_cons {key : String} : Fresh seen (key :: keys) ↔ key ∉ seen ∧ Fresh (key :: seen) keys := by
  rw [Fresh, Fresh, List.nodup_cons, List.forall_mem_cons]
  simp only [List.mem_cons, not_or]
  constructor
  · rintro ⟨⟨hkey, hnodup⟩, hseen, hkeys⟩
    exact ⟨hseen, hnodup, fun k hk => ⟨fun heq => hkey (heq ▸ hk), hkeys k hk⟩⟩
  · rintro ⟨hseen, hnodup, hkeys⟩
    exact ⟨⟨fun hk => (hkeys key hk).1 rfl, hnodup⟩, hseen, fun k hk => (hkeys k hk).2⟩

mutual
theorem visit_eq_ok : ∀ (v : JsonTree) (start : ℕ), UniqueJson.visit serde v = .ok () ↔
    AllUnique v.objects ∧ AllFinite serde (v.numbersAt start)
  | .null, _ | .bool _, _ | .string _, _ | .emptyArray _, _ => by
    simp [UniqueJson.visit, JsonTree.objects, JsonTree.numbersAt, AllUnique, AllFinite]
  | .emptyObject _, _ => by
    simp [UniqueJson.visit, JsonTree.objects, JsonTree.numbersAt, AllUnique, AllFinite]
  | .number t, start => by
    rw [UniqueJson.visit, visitNumber_eq_ok]
    simp [JsonTree.objects, JsonTree.numbersAt, AllUnique, AllFinite]
  | .array items, start => visitSeq_eq_ok items (start + 1)
  | .object members, start => by
    rw [UniqueJson.visit, visitMap_eq_ok members [] (start + 1), JsonTree.objects, JsonTree.numbersAt,
      allUnique_cons, and_assoc]
    refine and_congr ?_ Iff.rfl
    exact ⟨fun h => h.1, fun h => ⟨h, fun _ _ => List.not_mem_nil⟩⟩

theorem visitSeq_eq_ok : ∀ (items : JsonItems) (start : ℕ), UniqueJson.visitSeq serde items = .ok () ↔
    AllUnique items.objects ∧ AllFinite serde (items.numbersAt start)
  | .last before value after, start => visit_eq_ok value _
  | .more before value after rest, start => by
    rw [UniqueJson.visitSeq, Except.bind_eq_ok, JsonItems.objects, JsonItems.numbersAt, allUnique_append,
      allFinite_append, and_and_and_comm, ← visit_eq_ok value, ← visitSeq_eq_ok rest]
    exact ⟨fun ⟨_, h⟩ => h, fun h => ⟨(), h⟩⟩

theorem visitMap_eq_ok : ∀ (members : JsonMembers) (seen : List String) (start : ℕ),
    UniqueJson.visitMap serde seen members = .ok () ↔
      Fresh seen members.keys ∧ AllUnique members.objects ∧ AllFinite serde (members.numbersAt start)
  | .last before key colon value after, seen, start => by
    rw [UniqueJson.visitMap, refuseIf_bind_eq_ok, JsonMembers.keys, fresh_cons,
      visit_eq_ok value (start + (memberHead before key colon).length)]
    refine and_congr (iff_self_and.2 fun _ => ?_) Iff.rfl
    exact ⟨List.nodup_nil, fun _ h => nomatch h⟩
  | .more before key colon value after rest, seen, start => by
    have hvalue := visit_eq_ok value (start + (memberHead before key colon).length)
    have hrest := visitMap_eq_ok rest (key.decode :: seen)
    rw [UniqueJson.visitMap, refuseIf_bind_eq_ok, Except.bind_eq_ok, JsonMembers.keys, fresh_cons,
      JsonMembers.objects, JsonMembers.numbersAt, allUnique_append, allFinite_append]
    constructor
    · rintro ⟨hkey, _, hok, hmembers⟩
      obtain ⟨hown, hfinite⟩ := hvalue.1 hok
      obtain ⟨hfresh, hunique, hfinite'⟩ := (hrest _).1 hmembers
      exact ⟨⟨hkey, hfresh⟩, ⟨hown, hunique⟩, hfinite, hfinite'⟩
    · rintro ⟨⟨hkey, hfresh⟩, ⟨hown, hunique⟩, hfinite, hfinite'⟩
      exact ⟨hkey, (), hvalue.2 ⟨hown, hfinite⟩, (hrest _).2 ⟨hfresh, hunique, hfinite'⟩⟩
end

/-! ## Accepted requests -/

theorem floatValue_negativeZero : floatValue (2 ^ 63) = some 0 := by
  norm_num [floatValue]

theorem value_deliver (hserde : serde.Documented) {t : NumberToken} (hint : t.IsInteger) (hfits : t.Fits) :
    (serde.deliver t).value = some (t.integer : ℚ) := by
  cases hneg : t.negative with
  | false =>
    have hvalue := (NumberToken.fits_of_nonneg hint hneg).1 hfits
    rw [hserde.unsigned hint hneg hvalue, NumberToken.integer, hneg]
    rfl
  | true =>
    have hvalue := (NumberToken.fits_of_negative hint hneg).1 hfits
    rw [NumberToken.integer, hneg, if_pos rfl]
    rcases Nat.eq_zero_or_pos t.whole.value with hzero | hpos
    · rw [hserde.negativeZero hint hneg hzero, hzero]
      exact floatValue_negativeZero
    · rw [hserde.signed hint hneg hpos hvalue]
      rfl

/-- On the text of every document the scan stays within the bytes and inspects the document's number
tokens, up to one that does not fit. The request is accepted when no object repeats a key and every
integer fits, and then the parser delivers every integer with its value. -/
theorem validate_exact (serde : SerdeJson) (hserde : serde.Documented) (bytes : List UInt8)
    (doc : JsonDocument) (hparse : serde.parse bytes = some doc) :
    ((scan bytes 0 []).result ≠ .panicked ∧
      (scan bytes 0 []).inspected = (upToRefusal doc.numbers).map fun e => (e.1, e.2.bytes)) ∧
    (validate serde bytes = some (.ok ()) ↔
      (∀ keys ∈ doc.objects, keys.Nodup) ∧ ∀ e ∈ doc.numbers, e.2.Fits) ∧
    (validate serde bytes = some (.ok ()) → ∀ e ∈ doc.numbers, e.2.IsInteger →
      (serde.deliver e.2).value = some (e.2.integer : ℚ)) := by
  have hscan := (scan_document doc).trans (inspect_eq doc.numbers [])
  rw [hserde.text hparse] at hscan
  have hvisit : UniqueJson.visit serde doc.value = .ok () ↔ ∀ keys ∈ doc.objects, keys.Nodup :=
    (visit_eq_ok doc.value doc.before.bytes.length).trans (and_iff_left (hserde.finite hparse))
  have hvalid : validate serde bytes = some (.ok ()) ↔
      (∀ keys ∈ doc.objects, keys.Nodup) ∧ ∀ e ∈ doc.numbers, e.2.Fits := by
    simp only [validate, hparse, hscan]
    rw [← hvisit]
    cases UniqueJson.visit serde doc.value with
    | error e => simp
    | ok u =>
      by_cases hfits : ∀ e ∈ doc.numbers, e.2.Fits
      · simp only [if_pos hfits]
        exact ⟨fun _ => ⟨trivial, hfits⟩, fun _ => trivial⟩
      · simp only [if_neg hfits]
        exact ⟨fun h => (nomatch h), fun h => absurd h.2 hfits⟩
  refine ⟨⟨?_, ?_⟩, hvalid, fun hok e he hint => value_deliver hserde hint ((hvalid.1 hok).2 e he)⟩
  · rw [hscan]
    dsimp only
    split <;> exact fun h => nomatch h
  · rw [hscan]
    rfl

end

namespace Example

/-- The parser on one document. -/
def parserOf (doc : JsonDocument) : SerdeJson where
  parse bytes := if bytes = doc.bytes then some doc else none
  deliver t :=
    if t.IsInteger ∧ t.negative = false ∧ t.whole.value < 2 ^ 64 then .u64 t.whole.value
    else if t.IsInteger ∧ 0 < t.whole.value ∧ t.whole.value ≤ 2 ^ 63 then .i64 (-t.whole.value)
    else .f64 (2 ^ 63)

theorem documented_parserOf (doc : JsonDocument) : (parserOf doc).Documented where
  text h := by
    obtain ⟨heq, hdoc⟩ := Option.ite_none_right_eq_some.1 h
    exact Option.some.inj hdoc ▸ heq.symm
  finite _ e _ := by
    simp only [parserOf]
    split
    · rfl
    split
    · rfl
    · rw [Delivered.value, floatValue_negativeZero]
      rfl
  unsigned hint hneg hvalue := if_pos ⟨hint, hneg, hvalue⟩
  signed hint hneg hpos hvalue :=
    (if_neg fun h => Bool.false_ne_true (h.2.1.symm.trans hneg)).trans (if_pos ⟨hint, hpos, hvalue⟩)
  negativeZero hint hneg hzero :=
    (if_neg fun h => Bool.false_ne_true (h.2.1.symm.trans hneg)).trans
      (if_neg fun h => absurd h.2.1 (by omega))

theorem one_plain : 32 ≤ '1'.toNat ∧ '1' ≠ '"' ∧ '1' ≠ '\\' := by decide

theorem seven_lt : 7 < 10 := by decide

theorem seven_leads : (⟨7, seven_lt⟩ : Fin 10) = 0 → ([] : List (Fin 10)) = [] := fun _ => rfl

/-- An object whose key is an escaped quote and a digit, with an integer. -/
def quotedDigit : JsonDocument where
  before := []
  value := .object (.last [] [.short .quote, .raw '1' one_plain] ([], [.space])
    (.number ⟨true, ⟨⟨7, seven_lt⟩, []⟩, none, none, seven_leads⟩) [])
  after := [.lineFeed]

theorem validate_quotedDigit : validate (parserOf quotedDigit) quotedDigit.bytes = some (.ok ()) ∧
    ∀ e ∈ quotedDigit.numbers, e.2.IsInteger →
      ((parserOf quotedDigit).deliver e.2).value = some (e.2.integer : ℚ) := by
  have hparse : (parserOf quotedDigit).parse quotedDigit.bytes = some quotedDigit := by
    simp only [parserOf, if_true]
  have hexact := validate_exact (parserOf quotedDigit) (documented_parserOf quotedDigit) quotedDigit.bytes
    quotedDigit hparse
  have hok := hexact.2.1.2 (by decide)
  exact ⟨hok, hexact.2.2 hok⟩

end Example

end LuaSkills.Ffi.Guard
