import LuaSkills.ProcessOutput.Decoders
import LuaSkills.ProcessOutput.Ring
import Mathlib.Data.List.Forall2

/-!
# What the reads return

The bytes that the reads drain are the bytes of the stream in order, as long as the buffer drops
nothing. A read decodes its own piece: a piece that is no valid text is marked as lossy and carried in
Base64, and the texts then have more characters than the stream. So the texts of the reads are the text
of the stream exactly when no read is marked.
-/

namespace LuaSkills.ProcessOutput

open List

/-! ## Buffers -/

namespace ManagedProcessOutputBuffer
variable {buffer : ManagedProcessOutputBuffer} {bytes : List UInt8} {limit : ℕ}

theorem saturate_add_eq_zero {m : ℕ} (h : saturate (m + n) = 0) : m = 0 ∧ n = 0 := by
  unfold saturate at h
  omega

/-- As long as nothing is dropped, what is appended comes behind what is there. -/
theorem appendBounded_kept (h : (buffer.appendBounded bytes limit).droppedBytes = 0) :
    buffer.droppedBytes = 0 ∧ (buffer.appendBounded bytes limit).bytes = buffer.bytes ++ bytes := by
  obtain ⟨cut, dropped, -, -, hdropped, happend⟩ := buffer.appendBounded_cut bytes limit
  rw [happend] at h ⊢
  change dropped = 0 at h
  subst h
  rcases hdropped with hcount | ⟨rfl, hcount⟩
  · obtain ⟨hdropped, rfl⟩ := saturate_add_eq_zero hcount.symm
    exact ⟨hdropped, drop_zero⟩
  · exact ⟨hcount.symm, drop_zero⟩

theorem drain_append (maxBytes : ℕ) :
    (buffer.drain maxBytes).1 ++ (buffer.drain maxBytes).2.bytes = buffer.bytes := take_append_drop _ _

end ManagedProcessOutputBuffer

/-! ## Runs -/

variable {host : TextHost} {s s' : Session} {events : List Event} {e : Event}
  {encoding : RuntimeTextEncoding} {stream : List UInt8} {pieces : List (List UInt8)}

def ManagedProcessSessionReadResult.stdoutText (r : ManagedProcessSessionReadResult) : DecodedRuntimeText :=
  ⟨r.stdout, r.stdoutEncoding, r.stdoutLossy, r.stdoutBase64⟩

def Decodes (host : TextHost) (encoding : RuntimeTextEncoding) (r : ManagedProcessSessionReadResult)
    (piece : List UInt8) : Prop := r.stdoutText = host.decodeRuntimeText piece encoding

/-- The stream so far: the pieces that the reads have drained, and what is still in the buffer. -/
structure Drained (host : TextHost) (encoding : RuntimeTextEncoding) (s : Session) (stream : List UInt8)
    (pieces : List (List UInt8)) : Prop where
  encodes : s.stdoutEncoding = encoding
  stream : pieces.flatten ++ s.stdout.bytes = stream
  decodes : Forall₂ (Decodes host encoding) s.results pieces

theorem results_answer_error : (s.answer (.error message)).results = s.results := by
  simp only [Session.results, Session.answer, filterMap_append]
  exact append_nil _

theorem results_answer_ok : (s.answer (.ok r)).results = s.results ++ [r] := by
  simp only [Session.results, Session.answer, filterMap_append]
  rfl

theorem Drained.same (D : Drained host encoding s stream pieces) (hstdout : s'.stdout = s.stdout)
    (hencoding : s'.stdoutEncoding = s.stdoutEncoding) (hresults : s'.results = s.results) :
    Drained host encoding s' stream pieces :=
  ⟨hencoding.trans D.encodes, hstdout ▸ D.stream, hresults ▸ D.decodes⟩

theorem beginRead_same (s : Session) (request : ManagedProcessSessionReadRequest) (deadline : Bool) :
    (s.beginRead host request deadline).stdout = s.stdout ∧
    (s.beginRead host request deadline).stdoutEncoding = s.stdoutEncoding ∧
    (s.beginRead host request deadline).results = s.results := by
  unfold Session.beginRead
  dsimp only
  split
  · exact ⟨rfl, rfl, results_answer_error⟩
  · exact ⟨rfl, rfl, rfl⟩

theorem checkOutput_same (s : Session) (request : ManagedProcessSessionReadRequest)
    (search : ManagedProcessMarkerSearch) (readersDrained : Except String Bool) (expired : Bool) :
    (s.checkOutput host request search readersDrained expired).stdout = s.stdout ∧
    (s.checkOutput host request search readersDrained expired).stdoutEncoding = s.stdoutEncoding ∧
    (s.checkOutput host request search readersDrained expired).results = s.results := by
  unfold Session.checkOutput
  dsimp only
  split
  · exact ⟨rfl, rfl, rfl⟩
  split
  · exact ⟨rfl, rfl, results_answer_error⟩
  · exact ⟨rfl, rfl, rfl⟩
  · split <;> exact ⟨rfl, rfl, rfl⟩

/-- A read takes a piece off the buffer and returns what it decodes to. -/
theorem Drained.finishRead (D : Drained host encoding s stream pieces) (request : ManagedProcessSessionReadRequest)
    (timedOut : Bool) :
    Drained host encoding (s.finishRead host request timedOut) stream
      (pieces ++ [(s.stdout.drain request.maxBytes).1]) where
  encodes := D.encodes
  stream := by
    rw [flatten_append, flatten_singleton, append_assoc]
    exact (congrArg _ (ManagedProcessOutputBuffer.drain_append _)).trans D.stream
  decodes := by
    unfold Session.finishRead
    rw [results_answer_ok]
    exact rel_append D.decodes (.cons (D.encodes ▸ rfl) .nil)

theorem step_kept (h : s.step host e = some s') (hkept : s'.stdout.droppedBytes = 0) :
    s.stdout.droppedBytes = 0 := by
  cases e with
  | output target bytes =>
    cases target <;> cases h
    · exact (ManagedProcessOutputBuffer.appendBounded_kept hkept).1
    · exact hkept
  | begin request deadline =>
    simp only [Session.step] at h
    split at h <;> cases h
    rwa [(beginRead_same s request deadline).1] at hkept
  | check readersDrained expired =>
    simp only [Session.step] at h
    split at h <;> cases h
    rwa [(checkOutput_same s _ _ readersDrained expired).1] at hkept
  | finish =>
    simp only [Session.step] at h
    split at h <;> cases h
    exact hkept

theorem Drained.step (D : Drained host encoding s stream pieces) (h : s.step host e = some s')
    (hkept : s'.stdout.droppedBytes = 0) :
    ∃ pieces', Drained host encoding s' (stream ++ e.bytesOf .stdout) pieces' := by
  cases e with
  | output target bytes =>
    cases target <;> cases h
    · refine ⟨pieces, D.encodes, ?_, D.decodes⟩
      rw [(ManagedProcessOutputBuffer.appendBounded_kept hkept).2, ← append_assoc, D.stream]
      rfl
    · exact ⟨pieces, (append_nil stream).symm ▸ D.same rfl rfl rfl⟩
  | begin request deadline =>
    simp only [Session.step] at h
    split at h <;> cases h
    obtain ⟨hstdout, hencoding, hresults⟩ := @beginRead_same host s request deadline
    exact ⟨pieces, (append_nil stream).symm ▸ D.same hstdout hencoding hresults⟩
  | check readersDrained expired =>
    simp only [Session.step] at h
    split at h <;> cases h
    obtain ⟨hstdout, hencoding, hresults⟩ := checkOutput_same s _ _ readersDrained expired
    exact ⟨pieces, (append_nil stream).symm ▸ D.same hstdout hencoding hresults⟩
  | finish =>
    simp only [Session.step] at h
    split at h <;> cases h
    exact ⟨_, (append_nil stream).symm ▸ D.finishRead _ _⟩

theorem run_cons (s : Session) (e : Event) (events : List Event) :
    s.run host (e :: events) = (s.step host e).bind fun s' => s'.run host events := foldlM_cons

theorem run_kept (h : s.run host events = some s') (hkept : s'.stdout.droppedBytes = 0) :
    s.stdout.droppedBytes = 0 := by
  induction events generalizing s with
  | nil =>
    cases h
    exact hkept
  | cons e events ih =>
    rw [run_cons] at h
    obtain ⟨s₁, hstep, hrun⟩ := Option.bind_eq_some_iff.1 h
    exact step_kept hstep (ih hrun)

theorem Drained.run (D : Drained host encoding s stream pieces) (h : s.run host events = some s')
    (hkept : s'.stdout.droppedBytes = 0) :
    ∃ pieces', Drained host encoding s' (stream ++ events.flatMap (Event.bytesOf .stdout)) pieces' := by
  induction events generalizing s stream pieces with
  | nil =>
    cases h
    exact ⟨pieces, (append_nil stream).symm ▸ D⟩
  | cons e events ih =>
    rw [run_cons] at h
    obtain ⟨s₁, hstep, hrun⟩ := Option.bind_eq_some_iff.1 h
    obtain ⟨pieces₁, D₁⟩ := D.step hstep (run_kept hrun hkept)
    obtain ⟨pieces', D'⟩ := ih D₁ hrun
    rw [flatMap_cons, ← append_assoc]
    exact ⟨pieces', D'⟩

/-! ## Texts -/

section
variable {bytes : List UInt8} {text : List Char} {r : ManagedProcessSessionReadResult} {piece : List UInt8}

theorem decodeUtf8_lossy : (host.decodeUtf8 bytes).lossy = false ↔ ∃ text, bytes = Utf8.encode text := by
  unfold TextHost.decodeUtf8
  split
  · next text h => exact ⟨fun _ => ⟨_, (Utf8.decode?_eq_some h).symm⟩, fun _ => rfl⟩
  · next h =>
    refine ⟨fun hlossy => (nomatch hlossy), ?_⟩
    rintro ⟨text, rfl⟩
    rw [Utf8.decode?_encode] at h
    cases h

/-- A result carries the bytes of its piece: in its text, or in Base64 when it is marked as lossy, with
a text that holds replacement characters. -/
def Carries (host : TextHost) (r : ManagedProcessSessionReadResult) (piece : List UInt8) : Prop :=
  r.stdoutLossy = false ∧ Utf8.encode r.stdout.toList = piece ∨
  r.stdoutLossy = true ∧ r.stdoutBase64 = some (host.base64 piece) ∧
    (¬ ∃ text, piece = Utf8.encode text) ∧ Utf8.replacement ∈ r.stdout.toList

theorem Decodes.toList_stdout (h : Decodes host .utf8 r piece) : r.stdout.toList = Utf8.lossy.decode piece := by
  have htext : r.stdout = (host.decodeUtf8 piece).text := congrArg DecodedRuntimeText.text h
  rw [htext, decodeUtf8_text]

theorem Decodes.lossy_iff (h : Decodes host .utf8 r piece) :
    r.stdoutLossy = false ↔ ∃ text, piece = Utf8.encode text := by
  have hlossy : r.stdoutLossy = (host.decodeUtf8 piece).lossy := congrArg DecodedRuntimeText.lossy h
  rw [hlossy, decodeUtf8_lossy]

theorem Decodes.carries (h : Decodes host .utf8 r piece) : Carries host r piece := by
  cases hlossy : r.stdoutLossy with
  | false =>
    obtain ⟨text, rfl⟩ := h.lossy_iff.1 hlossy
    exact .inl ⟨hlossy, by rw [h.toList_stdout, Utf8.decode_encode]⟩
  | true =>
    have hinvalid : ¬ ∃ text, piece = Utf8.encode text := by
      rw [← h.lossy_iff, hlossy]
      exact Bool.noConfusion
    have hbase64 : r.stdoutBase64 = (host.decodeUtf8 piece).base64 := congrArg DecodedRuntimeText.base64 h
    refine .inr ⟨hlossy, ?_, hinvalid, ?_⟩
    · rw [hbase64]
      unfold TextHost.decodeUtf8
      split
      · next htext => exact absurd ⟨_, (Utf8.decode?_eq_some htext).symm⟩ hinvalid
      · rfl
    · by_contra hreplacement
      rw [h.toList_stdout] at hreplacement
      exact hinvalid ⟨_, (Utf8.encode_decode hreplacement).symm⟩

/-- The texts of the reads are the text of the stream exactly when no read is marked as lossy. -/
theorem texts_iff (hdecodes : Forall₂ (Decodes host .utf8) results pieces)
    (hpieces : pieces.flatten = Utf8.encode text) :
    (results.flatMap fun r => r.stdout.toList) = text ↔ ∀ r ∈ results, r.stdoutLossy = false := by
  have htexts : (results.flatMap fun r => r.stdout.toList) = pieces.flatMap Utf8.lossy.decode := by
    clear hpieces
    induction hdecodes with
    | nil => rfl
    | cons h _ ih => rw [flatMap_cons, flatMap_cons, h.toList_stdout, ih]
  have hmarks : (∀ r ∈ results, r.stdoutLossy = false) ↔ ∀ piece ∈ pieces, ∃ t, piece = Utf8.encode t := by
    clear hpieces htexts
    induction hdecodes with
    | nil => exact ⟨fun _ _ h => (nomatch h), fun _ _ h => nomatch h⟩
    | cons h _ ih => rw [forall_mem_cons, forall_mem_cons, h.lossy_iff, ih]
  rw [htexts, hmarks]
  constructor
  · intro htext
    exact Utf8.valid_of_lengths hpieces (Nat.le_of_eq (congrArg length htext))
  · intro hvalid
    have hbytes : ∀ pieces : List (List UInt8), (∀ piece ∈ pieces, ∃ t, piece = Utf8.encode t) →
        pieces.flatten = Utf8.encode (pieces.flatMap Utf8.lossy.decode) := by
      intro pieces hvalid
      induction pieces with
      | nil => rfl
      | cons piece pieces ih =>
        obtain ⟨⟨t, rfl⟩, hrest⟩ := forall_mem_cons.1 hvalid
        rw [flatten_cons, flatMap_cons, Utf8.encode_append, Utf8.decode_encode, ← ih hrest]
    exact Utf8.encode_inj ((hbytes pieces hvalid).symm.trans hpieces)

/-- In every run that drains a stream of valid text without dropping a byte, the reads carry the stream
piece by piece, and their texts together are its text exactly when none of them is marked as lossy. -/
theorem reads_reassemble (host : TextHost) (stderrEncoding : RuntimeTextEncoding) (limit : ℕ)
    (text : List Char) (events : List Event) (s : Session)
    (hrun : (Session.mk .utf8 stderrEncoding limit {} {} .idle []).run host events = some s)
    (hstream : events.flatMap (Event.bytesOf .stdout) = Utf8.encode text)
    (hkept : s.stdout.droppedBytes = 0) (hdrained : s.stdout.bytes = []) :
    (∃ pieces, pieces.flatten = Utf8.encode text ∧ Forall₂ (Carries host) s.results pieces) ∧
    ((s.results.flatMap fun r => r.stdout.toList) = text ↔ ∀ r ∈ s.results, r.stdoutLossy = false) := by
  have hstart : Drained host .utf8 (Session.mk .utf8 stderrEncoding limit {} {} .idle []) [] [] :=
    ⟨rfl, rfl, .nil⟩
  obtain ⟨pieces, D⟩ := hstart.run hrun hkept
  have hpieces := D.stream
  rw [hdrained, append_nil, nil_append, hstream] at hpieces
  exact ⟨⟨pieces, hpieces, D.decodes.imp fun _ _ h => h.carries⟩, texts_iff D.decodes hpieces⟩

end

/-! ## A character in two reads -/

namespace Example

def base64Letter (n : ℕ) : Char :=
  if n < 26 then Char.ofNat (65 + n)
  else if n < 52 then Char.ofNat (71 + n)
  else if n < 62 then Char.ofNat (n - 4)
  else if n = 62 then '+'
  else '/'

def base64Group (b : UInt8) (rest : List UInt8) : List Char :=
  match rest with
  | [] => [base64Letter (b.toNat / 4), base64Letter (b.toNat % 4 * 16), '=', '=']
  | [c] =>
    [base64Letter (b.toNat / 4), base64Letter (b.toNat % 4 * 16 + c.toNat / 16),
      base64Letter (c.toNat % 16 * 4), '=']
  | c :: d :: _ =>
    [base64Letter (b.toNat / 4), base64Letter (b.toNat % 4 * 16 + c.toNat / 16),
      base64Letter (c.toNat % 16 * 4 + d.toNat / 64), base64Letter (d.toNat % 64)]

theorem length_base64Group (b : UInt8) (rest : List UInt8) : (base64Group b rest).length = 4 := by
  unfold base64Group
  split <;> rfl

/-- A host without code pages, on which no text is converted but UTF-8. -/
def plainHost : TextHost where
  base64Group := base64Group
  length_base64Group := length_base64Group
  base64Decode _ := .error "no text"
  gbk := ⟨fun _ => ("", true), fun _ => ([], true)⟩
  gb18030 := ⟨fun _ => ("", true), fun _ => ([], true)⟩
  codePages := none

def opened : Session := .mk .utf8 .utf8 65536 {} {} .idle []

def readNow (maxBytes : ℕ) : List Event := [.begin ⟨0, maxBytes, none⟩ true, .check (.ok false) false, .finish]

def accent : Event := .output .stdout [0xC3, 0xA9]

def wholeReads : List Event := accent :: readNow 65536

def cutReads : List Event := accent :: (readNow 1 ++ readNow 1)

theorem reads_reassemble_accent :
    ∃ s, opened.run plainHost wholeReads = some s ∧
      (∃ pieces, pieces.flatten = Utf8.encode [Char.ofNat 0xE9] ∧
        Forall₂ (Carries plainHost) s.results pieces) ∧
      ((s.results.flatMap fun r => r.stdout.toList) = [Char.ofNat 0xE9] ↔
        ∀ r ∈ s.results, r.stdoutLossy = false) := by
  refine ⟨_, rfl, ?_⟩
  exact reads_reassemble plainHost .utf8 65536 [Char.ofNat 0xE9] wholeReads _ rfl (by decide) rfl rfl

/-- Two reads of one byte each return two replacement characters. -/
theorem not_reassembled_cut :
    ∃ s, opened.run plainHost cutReads = some s ∧
      cutReads.flatMap (Event.bytesOf .stdout) = Utf8.encode [Char.ofNat 0xE9] ∧
      s.stdout.droppedBytes = 0 ∧ s.stdout.bytes = [] ∧
      (s.results.flatMap fun r => r.stdout.toList) ≠ [Char.ofNat 0xE9] := by
  refine ⟨_, rfl, by decide, rfl, rfl, ?_⟩
  have htexts : ∀ (r r' : ManagedProcessSessionReadResult), r.stdout = (plainHost.decodeUtf8 [0xC3]).text →
      r'.stdout = (plainHost.decodeUtf8 [0xA9]).text →
      ([r, r'].flatMap fun r => r.stdout.toList) ≠ [Char.ofNat 0xE9] := by
    intro r r' hr hr'
    rw [flatMap_cons, flatMap_cons, hr, hr', decodeUtf8_text, decodeUtf8_text]
    decide
  exact htexts _ _ rfl rfl

end Example

end LuaSkills.ProcessOutput
