import LuaSkills.ProcessOutput.Reads
import Mathlib.Data.List.Chain

/-!
# The incremental search for a marker

A read that waits for a marker scans only what is new since its last scan, and an overlap before it. The
scan decodes from the middle of the window, and between two scans the ring may have dropped the beginning
of the window. So a scan answers as a search of the whole window only where it resumes between two
characters (`Resumes`): for UTF-8 and Latin-1 always, for Base64 as long as the ring drops whole groups.
-/

namespace LuaSkills.ProcessOutput

open List

variable {host : TextHost} {C : Converters} {encoding : RuntimeTextEncoding} {marker : String}
  {bytes : List UInt8}

/-! ## Windows -/

namespace ManagedProcessOutputBuffer
variable {buffer old mid new : ManagedProcessOutputBuffer}

/-- The window has not lost count of the stream. -/
def Counted (buffer : ManagedProcessOutputBuffer) : Prop :=
  buffer.totalBytes < 2 ^ 64 - 1 → buffer.bytes.length ≤ buffer.totalBytes

/-- The window has gained bytes, and lost the oldest ones. -/
def Follows (old new : ManagedProcessOutputBuffer) : Prop :=
  ∃ extra dropped, dropped ≤ (old.bytes ++ extra).length ∧ new.bytes = (old.bytes ++ extra).drop dropped ∧
    (new.totalBytes < 2 ^ 64 - 1 → new.totalBytes = old.totalBytes + extra.length)

theorem Follows.refl (buffer : ManagedProcessOutputBuffer) : buffer.Follows buffer :=
  ⟨[], 0, Nat.zero_le _, (append_nil _).symm, fun _ => rfl⟩

theorem Follows.trans (h : old.Follows mid) (h' : mid.Follows new) : old.Follows new := by
  obtain ⟨extra, dropped, hle, hbytes, htotal⟩ := h
  obtain ⟨extra', dropped', hle', hbytes', htotal'⟩ := h'
  have hmid : mid.bytes ++ extra' = (old.bytes ++ (extra ++ extra')).drop dropped := by
    rw [hbytes, ← append_assoc, drop_append_of_le_length hle]
  refine ⟨extra ++ extra', dropped + dropped', ?_, ?_, fun hcount => ?_⟩
  · rw [hmid, length_drop] at hle'
    rw [← append_assoc, length_append] at hle' ⊢
    omega
  · rw [hbytes', hmid, drop_drop]
  · have hnew := htotal' hcount
    have hold := htotal (by omega)
    rw [length_append]
    omega

theorem appendBounded_follows (buffer : ManagedProcessOutputBuffer) (bytes : List UInt8) (limit : ℕ) :
    buffer.Follows (buffer.appendBounded bytes limit) := by
  obtain ⟨cut, dropped, hcut, -, -, happend⟩ := buffer.appendBounded_cut bytes limit
  rw [happend]
  refine ⟨bytes, cut, hcut, rfl, fun hcount => ?_⟩
  dsimp only [saturate] at hcount ⊢
  omega

theorem Counted.follows (h : old.Counted) (hfollows : old.Follows new) : new.Counted := by
  obtain ⟨extra, dropped, -, hbytes, htotal⟩ := hfollows
  intro hcount
  have hnew := htotal hcount
  have hold := h (by omega)
  rw [hbytes, length_drop, length_append]
  omega

theorem Counted.drain (h : buffer.Counted) (maxBytes : ℕ) : (buffer.drain maxBytes).2.Counted := by
  intro hcount
  refine Nat.le_trans ?_ (h hcount)
  exact (drop_suffix _ _).length_le

/-- What a window that still holds a part of the old one consists of. -/
theorem Follows.window (h : old.Follows new) (hold : old.Counted) (hnew : new.Counted)
    (hcount : new.totalBytes < 2 ^ 64 - 1) (hheld : new.retainedStart < old.totalBytes) :
    ∃ extra, new.bytes = old.bytes.drop (new.retainedStart - old.retainedStart) ++ extra ∧
      old.retainedStart ≤ new.retainedStart ∧ old.bytes.length ≤ old.totalBytes ∧
      old.totalBytes ≤ new.totalBytes := by
  obtain ⟨extra, dropped, hle, hbytes, htotal⟩ := h
  have hnewTotal := htotal hcount
  have holdLength := hold (by omega)
  have hnewLength := hnew hcount
  have hlength := congrArg length hbytes
  rw [length_drop, length_append] at hlength
  rw [length_append] at hle
  unfold retainedStart at hheld ⊢
  have hdropped : new.totalBytes - new.bytes.length - (old.totalBytes - old.bytes.length) = dropped := by
    omega
  refine ⟨extra, ?_, by omega, holdLength, by omega⟩
  rw [hdropped, hbytes, drop_append_of_le_length (by omega)]

theorem alignedSkip_le (buffer : ManagedProcessOutputBuffer) (encoding : RuntimeTextEncoding)
    (cursor overlap : ℕ) : buffer.alignedSkip encoding cursor overlap ≤
      min (cursor - overlap - buffer.retainedStart) buffer.bytes.length := by
  unfold alignedSkip
  dsimp only
  split <;> omega

theorem alignedSkip_eq (hencoding : encoding ≠ .base64)
    (hle : cursor - overlap - buffer.retainedStart ≤ buffer.bytes.length) :
    buffer.alignedSkip encoding cursor overlap = cursor - overlap - buffer.retainedStart := by
  unfold alignedSkip
  rw [if_neg hencoding]
  omega

theorem dvd_alignedSkip (buffer : ManagedProcessOutputBuffer) (cursor overlap : ℕ) :
    3 ∣ buffer.alignedSkip .base64 cursor overlap := by
  unfold alignedSkip
  rw [if_pos rfl]
  exact Nat.dvd_sub_mod _

end ManagedProcessOutputBuffer

/-! ## A scan -/

/-- The whole window, decoded, contains the marker. -/
def WindowContains (host : TextHost) (encoding : RuntimeTextEncoding) (marker : String)
    (buffer : ManagedProcessOutputBuffer) : Prop :=
  contains (host.decodeRuntimeText buffer.bytes encoding).text marker = true

/-- What the ring has dropped of the old window, and what the scan of the new one skips, end with a
character, and the overlap holds the marker. UTF-8 and Latin-1 need no such condition, unless the marker
has a replacement character. -/
def EndsCharacters (C : Converters) (host : TextHost) (marker : String) (old new : List UInt8)
    (dropped skip : ℕ) : RuntimeTextEncoding → Prop
  | .latin1 => True
  | .base64 => 3 ∣ dropped ∧ marker.utf8ByteSize * 3 < 2 ^ 64
  | encoding =>
    IsUtf8 host encoding ∧ Utf8.replacement ∉ marker.toList ∨
    (C.decoder host encoding).Boundary old dropped ∧ (C.decoder host encoding).Boundary new skip ∧
    ∃ q, (C.decoder host encoding).Spans marker.toList q ∧
      q + 2 ≤ markerSearchOverlapBytes host marker encoding

/-- The scan of a window, from the one of an older window on, begins with the window or at a character. -/
def Resumes (C : Converters) (host : TextHost) (encoding : RuntimeTextEncoding) (marker : String)
    (old new : ManagedProcessOutputBuffer) : Prop :=
  let skip := old.totalBytes - markerSearchOverlapBytes host marker encoding - new.retainedStart
  let dropped := new.retainedStart - old.retainedStart
  skip = 0 ∨ encoding = .base64 ∧ skip < 3 ∨
    new.totalBytes < 2 ^ 64 - 1 ∧ Regular host old.bytes encoding ∧ Regular host new.bytes encoding ∧
    Regular host (new.bytes.drop skip) encoding ∧
    EndsCharacters C host marker old.bytes new.bytes dropped skip encoding

theorem contains_iff (hC : C.Documented host) (h : Regular host bytes encoding) :
    contains (host.decodeRuntimeText bytes encoding).text marker = true ↔
      marker.toList <:+: (C.decoder host encoding).decode bytes := by
  rw [contains, decodeRuntimeText_toList hC h]
  exact decide_eq_true_iff

theorem regular_nil (encoding : RuntimeTextEncoding) : Regular host [] encoding := by
  cases encoding with
  | gbk | gb18030 => exact (by decide : ¬ HasBom [])
  | system | oem => exact fun _ => Nat.two_pow_pos 31
  | utf8 | latin1 | base64 => trivial

theorem overlap_utf8 (h : IsUtf8 host encoding) : markerSearchOverlapBytes host marker encoding =
    saturate ((Utf8.encode marker.toList).length + 8) := by
  cases encoding with
  | utf8 => rfl
  | system =>
    have hnone : host.codePages = none := h
    simp only [markerSearchOverlapBytes, TextHost.encodeRuntimeText, TextHost.encodeSystemText, hnone]
  | oem =>
    have hnone : host.codePages = none := h
    simp only [markerSearchOverlapBytes, TextHost.encodeRuntimeText, TextHost.encodeOemText, hnone]
  | gbk | gb18030 | latin1 | base64 => exact h.elim

theorem overlap_latin1 :
    markerSearchOverlapBytes host marker .latin1 = saturate (marker.toList.length + 8) := by
  simp only [markerSearchOverlapBytes, TextHost.encodeRuntimeText, TextHost.encodeLatin1, length_map]

section
variable {old extra : List UInt8} {dropped skip : ℕ}

/-- Behind the characters that the overlap goes back, the scan sees what the whole window shows. -/
theorem EndsCharacters.decode_iff (hC : C.Documented host)
    (h : EndsCharacters C host marker old (old.drop dropped ++ extra) dropped skip encoding)
    (hskip : skip ≤ (old.drop dropped ++ extra).length) (hdvd : encoding = .base64 → 3 ∣ skip)
    (hback : dropped + skip + markerSearchOverlapBytes host marker encoding ≤ old.length)
    (hoverlap : markerSearchOverlapBytes host marker encoding < 2 ^ 64 - 1)
    (hold : ¬ marker.toList <:+: (C.decoder host encoding).decode old) :
    marker.toList <:+: (C.decoder host encoding).decode ((old.drop dropped ++ extra).drop skip) ↔
      marker.toList <:+: (C.decoder host encoding).decode (old.drop dropped ++ extra) := by
  have hcharacters : (IsUtf8 host encoding ∧ Utf8.replacement ∉ marker.toList ∨
      (C.decoder host encoding).Boundary old dropped ∧
      (C.decoder host encoding).Boundary (old.drop dropped ++ extra) skip ∧
      ∃ q, (C.decoder host encoding).Spans marker.toList q ∧
        q + 2 ≤ markerSearchOverlapBytes host marker encoding) →
      (marker.toList <:+: (C.decoder host encoding).decode ((old.drop dropped ++ extra).drop skip) ↔
        marker.toList <:+: (C.decoder host encoding).decode (old.drop dropped ++ extra)) := by
    rintro (⟨hutf8, hM⟩ | ⟨hd, hk, q, hspan, hq⟩)
    · rw [hutf8.decoder] at hold ⊢
      rw [overlap_utf8 hutf8, saturate] at hback hoverlap
      exact Utf8.resume_iff hM (by omega) hold
    · exact StepDecoder.resume_iff (hC.lookahead encoding) hspan hd hk (by omega) hold
  cases encoding with
  | utf8 | system | oem | gbk | gb18030 => exact hcharacters h
  | latin1 =>
    rw [overlap_latin1, saturate] at hback hoverlap
    exact StepDecoder.resume_iff lookahead_latin1 (sized_latin1.spans _)
      (grouped_latin1.boundary (Nat.one_dvd _) (by omega)) (grouped_latin1.boundary (Nat.one_dvd _) hskip)
      (by rw [map_const', sum_replicate_nat]; omega) hold
  | base64 =>
    have hlength := Utf8.length_le_utf8ByteSize marker
    have hbound : markerSearchOverlapBytes host marker .base64 =
        saturate ((saturate (marker.utf8ByteSize * 3) + 3) / 4 + 6) := rfl
    rw [hbound] at hback hoverlap
    unfold saturate at hback hoverlap
    have hsize := h.2
    exact StepDecoder.resume_iff lookahead_base64 (grouped_base64.spans (by decide) width_base64 _)
      (grouped_base64.boundary h.1 (by omega)) (grouped_base64.boundary (hdvd rfl) hskip)
      (by omega) hold

end

/-- The answer of a scan, also of an empty window. -/
theorem containsMarkerSince_iff (hC : C.Documented host) {buffer : ManagedProcessOutputBuffer}
    (hblank : marker = "" → buffer.bytes ≠ []) :
    (buffer.containsMarkerSince host encoding marker cursor overlap).1 = true ↔
      contains (host.decodeRuntimeText (buffer.bytes.drop (buffer.alignedSkip encoding cursor overlap))
        encoding).text marker = true := by
  unfold ManagedProcessOutputBuffer.containsMarkerSince
  split
  · next hempty =>
    have hmarker : marker ≠ "" := fun h => hblank h hempty
    rw [hempty, drop_nil, contains_iff hC (regular_nil encoding), StepDecoder.decode_nil,
      infix_nil, String.toList_eq_nil_iff]
    exact ⟨fun h => (nomatch h), fun h => absurd h hmarker⟩
  · exact Iff.rfl

variable {old new : ManagedProcessOutputBuffer}

/-- In UTF-8 a scan may resume anywhere. -/
theorem Resumes.utf8 (hcount : new.totalBytes < 2 ^ 64 - 1)
    (hM : Utf8.replacement ∉ marker.toList) : Resumes C host .utf8 marker old new :=
  .inr (.inr ⟨hcount, trivial, trivial, trivial, .inl ⟨trivial, hM⟩⟩)

/-- The condition speaks of the bytes that the scan really skips. -/
theorem Resumes.aligned (h : Resumes C host encoding marker old new) (hfollows : old.Follows new)
    (hold : old.Counted) (hnew : new.Counted) :
    let overlap := markerSearchOverlapBytes host marker encoding
    let skip := new.alignedSkip encoding old.totalBytes overlap
    let dropped := new.retainedStart - old.retainedStart
    skip = 0 ∨ ∃ extra, new.bytes = old.bytes.drop dropped ++ extra ∧
      dropped + skip + overlap ≤ old.bytes.length ∧ overlap < 2 ^ 64 - 1 ∧
      Regular host old.bytes encoding ∧ Regular host new.bytes encoding ∧
      Regular host (new.bytes.drop skip) encoding ∧
      EndsCharacters C host marker old.bytes new.bytes dropped skip encoding := by
  intro overlap skip dropped
  have hskip : skip ≤ min (old.totalBytes - overlap - new.retainedStart) new.bytes.length :=
    new.alignedSkip_le encoding old.totalBytes overlap
  rcases h with hzero | ⟨rfl, hgroup⟩ | ⟨hcount, hregOld, hregNew, hregScan, hends⟩
  · left
    omega
  · left
    have hdvd : 3 ∣ skip := new.dvd_alignedSkip old.totalBytes overlap
    omega
  by_cases hzero : skip = 0
  · exact .inl hzero
  obtain ⟨extra, hwindow, hstart, hlength, htotal⟩ := hfollows.window hold hnew hcount (by omega)
  have hnewLength := hnew hcount
  have hretained : old.retainedStart = old.totalBytes - old.bytes.length := rfl
  have hretained' : new.retainedStart = new.totalBytes - new.bytes.length := rfl
  refine .inr ⟨extra, hwindow, by omega, by omega, hregOld, hregNew, ?_⟩
  by_cases hencoding : encoding = .base64
  · subst hencoding
    exact ⟨trivial, hends⟩
  · have hexact : skip = old.totalBytes - overlap - new.retainedStart :=
      ManagedProcessOutputBuffer.alignedSkip_eq hencoding (by omega)
    rw [hexact]
    exact ⟨hregScan, hends⟩

/-- A scan that resumes at a character, after a search that found nothing, finds what a search of the
whole window finds. -/
theorem Resumes.scan_iff (hC : C.Documented host) (h : Resumes C host encoding marker old new)
    (hfollows : old.Follows new) (hold : old.Counted) (hnew : new.Counted)
    (hblank : marker = "" → new.bytes ≠ []) (hmissed : ¬ WindowContains host encoding marker old) :
    (new.containsMarkerSince host encoding marker old.totalBytes
      (markerSearchOverlapBytes host marker encoding)).1 = true ↔
      WindowContains host encoding marker new := by
  rw [containsMarkerSince_iff hC hblank]
  have hskip := new.alignedSkip_le encoding old.totalBytes (markerSearchOverlapBytes host marker encoding)
  rcases h.aligned hfollows hold hnew with
    hzero | ⟨extra, hwindow, hback, hoverlap, hregOld, hregNew, hregScan, hends⟩
  · rw [hzero, drop_zero]
    exact Iff.rfl
  rw [WindowContains, contains_iff hC hregOld] at hmissed
  rw [WindowContains, contains_iff hC hregScan, contains_iff hC hregNew]
  have hdvd : encoding = .base64 →
      3 ∣ new.alignedSkip encoding old.totalBytes (markerSearchOverlapBytes host marker encoding) := by
    rintro rfl
    exact new.dvd_alignedSkip _ _
  rw [hwindow] at hends
  have hwithin := hskip.trans (Nat.min_le_right _ _)
  have hwhole := hends.decode_iff hC (hwindow ▸ hwithin) hdvd hback hoverlap hmissed
  rwa [← hwindow] at hwhole

/-! ## Sessions -/

def Session.buffer (s : Session) : OutputStream → ManagedProcessOutputBuffer
  | .stdout => s.stdout
  | .stderr => s.stderr

def Session.encodingOf (s : Session) : OutputStream → RuntimeTextEncoding
  | .stdout => s.stdoutEncoding
  | .stderr => s.stderrEncoding

def ManagedProcessMarkerSearch.cursor (search : ManagedProcessMarkerSearch) : OutputStream → ℕ
  | .stdout => search.stdoutCursor
  | .stderr => search.stderrCursor

def ManagedProcessMarkerSearch.overlap (search : ManagedProcessMarkerSearch) : OutputStream → ℕ
  | .stdout => search.stdoutOverlap
  | .stderr => search.stderrOverlap

/-- A session whose process has not written anything yet. -/
def Session.opened (encodings : OutputStream → RuntimeTextEncoding) (limit : ℕ) : Session :=
  .mk (encodings .stdout) (encodings .stderr) limit {} {} .idle []

/-- The answer of the scan that the next round makes of a stream. -/
def Session.scans (host : TextHost) (s : Session) (marker : String) (search : ManagedProcessMarkerSearch)
    (stream : OutputStream) : Bool :=
  ((s.buffer stream).containsMarkerSince host (s.encodingOf stream) marker (search.cursor stream)
    (search.overlap stream)).1

variable {s s' : Session} {e : Event} {search search' : ManagedProcessMarkerSearch}
  {request : ManagedProcessSessionReadRequest} {stream : OutputStream}

inductive Touches : ManagedProcessOutputBuffer → ManagedProcessOutputBuffer → Prop where
  | same (buffer : ManagedProcessOutputBuffer) : Touches buffer buffer
  | append (buffer : ManagedProcessOutputBuffer) (bytes : List UInt8) (limit : ℕ) :
    Touches buffer (buffer.appendBounded bytes limit)
  | drain (buffer : ManagedProcessOutputBuffer) (maxBytes : ℕ) : Touches buffer (buffer.drain maxBytes).2

theorem Touches.counted (h : Touches old new) (hold : old.Counted) : new.Counted := by
  cases h with
  | same => exact hold
  | append bytes limit => exact hold.follows (old.appendBounded_follows bytes limit)
  | drain maxBytes => exact hold.drain maxBytes

theorem beginRead_eq (s : Session) (request : ManagedProcessSessionReadRequest) (deadline : Bool) :
    ∃ phase answers, s.beginRead host request deadline = { s with phase := phase, answers := answers } := by
  unfold Session.beginRead
  dsimp only
  split
  · exact ⟨.idle, _, rfl⟩
  · exact ⟨_, s.answers, rfl⟩

theorem checkOutput_eq (s : Session) (request : ManagedProcessSessionReadRequest)
    (search : ManagedProcessMarkerSearch) (readersDrained : Except String Bool) (expired : Bool) :
    ∃ phase answers, s.checkOutput host request search readersDrained expired =
      { s with phase := phase, answers := answers } := by
  unfold Session.checkOutput
  dsimp only
  split
  · exact ⟨_, s.answers, rfl⟩
  split
  · exact ⟨.idle, _, rfl⟩
  · exact ⟨_, s.answers, rfl⟩
  · split <;> exact ⟨_, s.answers, rfl⟩

theorem step_touches (h : s.step host e = some s') :
    s'.encodingOf = s.encodingOf ∧ ∀ stream, Touches (s.buffer stream) (s'.buffer stream) := by
  cases e with
  | output target bytes =>
    cases target <;> cases h
    · refine ⟨rfl, fun stream => ?_⟩
      cases stream with
      | stdout => exact .append s.stdout bytes s.bufferLimitBytes
      | stderr => exact .same s.stderr
    · refine ⟨rfl, fun stream => ?_⟩
      cases stream with
      | stdout => exact .same s.stdout
      | stderr => exact .append s.stderr bytes s.bufferLimitBytes
  | begin request deadline =>
    simp only [Session.step] at h
    split at h <;> cases h
    obtain ⟨phase, answers, hbegin⟩ := @beginRead_eq host s request deadline
    rw [hbegin]
    exact ⟨rfl, fun stream => .same (s.buffer stream)⟩
  | check readersDrained expired =>
    simp only [Session.step] at h
    split at h <;> cases h
    obtain ⟨phase, answers, hcheck⟩ := checkOutput_eq s _ _ readersDrained expired
    rw [hcheck]
    exact ⟨rfl, fun stream => .same (s.buffer stream)⟩
  | finish =>
    simp only [Session.step] at h
    split at h <;> cases h
    refine ⟨rfl, fun stream => ?_⟩
    cases stream with
    | stdout => exact .drain s.stdout _
    | stderr => exact .drain s.stderr _

theorem run_counted (h : s.run host events = some s') (hcounted : ∀ stream, (s.buffer stream).Counted) :
    s'.encodingOf = s.encodingOf ∧ ∀ stream, (s'.buffer stream).Counted := by
  induction events generalizing s with
  | nil =>
    cases h
    exact ⟨rfl, hcounted⟩
  | cons e events ih =>
    rw [run_cons] at h
    obtain ⟨s₁, hstep, hrun⟩ := Option.bind_eq_some_iff.1 h
    obtain ⟨hencodes, htouches⟩ := step_touches hstep
    rw [← hencodes]
    exact ih hrun fun stream => (htouches stream).counted (hcounted stream)

/-! ## Waiting for a marker -/

/-- The states of one wait for a marker, and the states in which it has scanned the windows before. -/
inductive Wait (host : TextHost) (encodings : OutputStream → RuntimeTextEncoding) (limit : ℕ)
    (marker : String) : List Session → Session → Prop where
  | begin {events : List Event} {request : ManagedProcessSessionReadRequest} {deadline : Bool}
    {search : ManagedProcessMarkerSearch} {s₀ s : Session} :
    (Session.opened encodings limit).run host events = some s₀ →
    s₀.step host (.begin request deadline) = some s → s.phase = .waiting request search →
    request.untilText = some marker → Wait host encodings limit marker [] s
  | output {scanned : List Session} {s s' : Session} {stream : OutputStream} {bytes : List UInt8} :
    Wait host encodings limit marker scanned s → s.step host (.output stream bytes) = some s' →
    Wait host encodings limit marker scanned s'
  | check {scanned : List Session} {s s' : Session} {readersDrained : Except String Bool} {expired : Bool}
    {request : ManagedProcessSessionReadRequest} {search : ManagedProcessMarkerSearch} :
    Wait host encodings limit marker scanned s → s.step host (.check readersDrained expired) = some s' →
    s'.phase = .waiting request search → Wait host encodings limit marker (scanned ++ [s]) s'

variable {encodings : OutputStream → RuntimeTextEncoding} {limit : ℕ} {scanned : List Session}

/-- What a window is to the one that was scanned last. -/
structure Since (old new : Session) (cursor : ℕ) (stream : OutputStream) : Prop where
  cursor : cursor = (old.buffer stream).totalBytes
  follows : (old.buffer stream).Follows (new.buffer stream)
  counted : (old.buffer stream).Counted

structure Waiting (host : TextHost) (encodings : OutputStream → RuntimeTextEncoding) (marker : String)
    (scanned : List Session) (s : Session) (request : ManagedProcessSessionReadRequest)
    (search : ManagedProcessMarkerSearch) : Prop where
  phase : s.phase = .waiting request search
  untilText : request.untilText = some marker
  encodes : s.encodingOf = encodings
  counted : ∀ stream, (s.buffer stream).Counted
  overlap : ∀ stream, search.overlap stream = markerSearchOverlapBytes host marker (encodings stream)
  first : scanned = [] → ∀ stream, search.cursor stream = 0
  since : ∀ old, scanned.getLast? = some old → ∀ stream, Since old s (search.cursor stream) stream

theorem Since.output {old : Session} {cursor : ℕ} (h : Since old s cursor stream)
    (htouches : (s.buffer stream).Follows (s'.buffer stream)) : Since old s' cursor stream :=
  ⟨h.cursor, h.follows.trans htouches, h.counted⟩

theorem step_output_follows (h : s.step host (.output target bytes) = some s') (stream : OutputStream) :
    (s.buffer stream).Follows (s'.buffer stream) ∧ s'.phase = s.phase := by
  cases target <;> cases h
  · cases stream with
    | stdout => exact ⟨s.stdout.appendBounded_follows bytes s.bufferLimitBytes, rfl⟩
    | stderr => exact ⟨.refl s.stderr, rfl⟩
  · cases stream with
    | stdout => exact ⟨.refl s.stdout, rfl⟩
    | stderr => exact ⟨s.stderr.appendBounded_follows bytes s.bufferLimitBytes, rfl⟩

/-- A read that begins to wait has not searched yet. -/
theorem beginRead_waiting (h : (s.beginRead host request deadline).phase = .waiting request' search) :
    request' = request ∧
      search = ManagedProcessMarkerSearch.new host request.untilText s.stdoutEncoding s.stderrEncoding := by
  unfold Session.beginRead at h
  dsimp only at h
  split at h
  · cases h
  · cases h
    exact ⟨rfl, rfl⟩

/-- The cursor behind a scan is the end of the stream. -/
theorem containsMarkerSince_cursor (buffer : ManagedProcessOutputBuffer) (cursor overlap : ℕ) :
    (buffer.containsMarkerSince host encoding marker cursor overlap).2 = buffer.totalBytes := by
  unfold ManagedProcessOutputBuffer.containsMarkerSince
  split <;> rfl

theorem hasReadableOutput_missed (h : (s.hasReadableOutput host (some marker) search).1 = false)
    (stream : OutputStream) : s.scans host marker search stream = false ∧
      (s.hasReadableOutput host (some marker) search).2.cursor stream = (s.buffer stream).totalBytes ∧
      (s.hasReadableOutput host (some marker) search).2.overlap stream = search.overlap stream := by
  unfold Session.hasReadableOutput at h ⊢
  dsimp only at h ⊢
  split at h
  · cases h
  next hstdout =>
  rw [if_neg hstdout]
  cases stream with
  | stdout => exact ⟨eq_false_of_ne_true hstdout, containsMarkerSince_cursor _ _ _, rfl⟩
  | stderr => exact ⟨h, containsMarkerSince_cursor _ _ _, rfl⟩

/-- A round after which the read still waits has scanned both windows and found nothing. -/
theorem checkOutput_waiting (hmarker : request.untilText = some marker)
    (h : (s.checkOutput host request search readersDrained expired).phase = .waiting request' search') :
    request' = request ∧ ∀ stream, s.scans host marker search stream = false ∧
      search'.cursor stream = (s.buffer stream).totalBytes ∧
      search'.overlap stream = search.overlap stream := by
  unfold Session.checkOutput at h
  rw [hmarker] at h
  dsimp only at h
  split at h
  · cases h
  next hfound =>
  split at h
  · cases h
  · cases h
  split at h
  · cases h
  cases h
  exact ⟨rfl, hasReadableOutput_missed (eq_false_of_ne_true hfound)⟩

theorem Waiting.scan_iff (hC : C.Documented host)
    (W : Waiting host encodings marker scanned s request search)
    (hresumes : ∀ old, scanned.getLast? = some old →
      Resumes C host (encodings stream) marker (old.buffer stream) (s.buffer stream))
    (hblank : marker = "" → (s.buffer stream).bytes ≠ [])
    (hmissed : ∀ old ∈ scanned, ¬ WindowContains host (encodings stream) marker (old.buffer stream)) :
    s.scans host marker search stream = true ↔
      WindowContains host (encodings stream) marker (s.buffer stream) := by
  rw [Session.scans, W.encodes, W.overlap]
  cases hlast : scanned.getLast? with
  | none =>
    have hempty : scanned = [] := getLast?_eq_none_iff.1 hlast
    have hskip := (s.buffer stream).alignedSkip_le (encodings stream) 0
      (markerSearchOverlapBytes host marker (encodings stream))
    rw [W.first hempty, containsMarkerSince_iff hC hblank, Nat.le_zero.1 (hskip.trans (by omega)),
      drop_zero]
    exact Iff.rfl
  | some old =>
    have hsince := W.since old hlast stream
    rw [hsince.cursor]
    exact (hresumes old hlast).scan_iff hC hsince.follows hsince.counted (W.counted stream) hblank
      (hmissed old (mem_of_getLast? hlast))

theorem Waiting.output (W : Waiting host encodings marker scanned s request search)
    (h : s.step host (.output target bytes) = some s') :
    Waiting host encodings marker scanned s' request search where
  phase := (step_output_follows h target).2.trans W.phase
  untilText := W.untilText
  encodes := (step_touches h).1.trans W.encodes
  counted stream := ((step_touches h).2 stream).counted (W.counted stream)
  overlap := W.overlap
  first := W.first
  since old hlast stream := (W.since old hlast stream).output (step_output_follows h stream).1

theorem Waiting.check (W : Waiting host encodings marker scanned s request search)
    (h : s.step host (.check readersDrained expired) = some s')
    (hphase : s'.phase = .waiting request' search') :
    Waiting host encodings marker (scanned ++ [s]) s' request' search' ∧
      ∀ stream, s.scans host marker search stream = false := by
  simp only [Session.step, W.phase, Option.some.injEq] at h
  subst h
  obtain ⟨rfl, hround⟩ := checkOutput_waiting W.untilText hphase
  obtain ⟨phase, answers, hcheck⟩ := @checkOutput_eq host s request' search readersDrained expired
  rw [hcheck] at hphase ⊢
  refine ⟨⟨hphase, W.untilText, W.encodes, W.counted, fun stream => ?_, fun hempty => ?_, ?_⟩,
    fun stream => (hround stream).1⟩
  · exact (hround stream).2.2.trans (W.overlap stream)
  · exact absurd hempty (append_ne_nil_of_right_ne_nil _ (cons_ne_nil s []))
  · intro old hlast stream
    rw [getLast?_append_cons, getLast?_singleton, Option.some.injEq] at hlast
    subst hlast
    exact ⟨(hround stream).2.1, .refl _, W.counted stream⟩

theorem Wait.waiting (h : Wait host encodings limit marker scanned s) :
    ∃ request search, Waiting host encodings marker scanned s request search := by
  induction h with
  | @begin events request' deadline search s₀ s hrun hbegin hphase hmarker =>
    obtain ⟨hencodes, hcounted⟩ := run_counted hrun fun stream _ => by cases stream <;> exact Nat.le_refl 0
    obtain ⟨hencodes', htouches⟩ := step_touches hbegin
    simp only [Session.step] at hbegin
    split at hbegin <;> cases hbegin
    obtain ⟨-, hsearch⟩ := beginRead_waiting hphase
    rw [hmarker] at hsearch
    have hencodings : (Session.opened encodings limit).encodingOf = encodings :=
      funext fun stream => by cases stream <;> rfl
    rw [hencodings] at hencodes
    refine ⟨_, _, hphase, hmarker, hencodes'.trans hencodes,
      fun stream => (htouches stream).counted (hcounted stream), fun stream => ?_, fun _ stream => ?_,
      fun old hold => by cases hold⟩
    · rw [hsearch, ← hencodes]
      cases stream <;> rfl
    · rw [hsearch]
      cases stream <;> rfl
  | output _ hstep ih =>
    obtain ⟨request, search, W⟩ := ih
    exact ⟨request, search, W.output hstep⟩
  | check _ hstep hphase ih =>
    obtain ⟨request, search, W⟩ := ih
    exact ⟨_, _, (W.check hstep hphase).1⟩

theorem chain_windows (h : ((scanned ++ [s]).map fun s => s.buffer stream).IsChain R) :
    (scanned.map fun s => s.buffer stream).IsChain R ∧
      ∀ old, scanned.getLast? = some old → R (old.buffer stream) (s.buffer stream) := by
  rw [map_append] at h
  obtain ⟨hchain, -, hlast⟩ := isChain_append.1 h
  refine ⟨hchain, fun old hold => hlast _ ?_ _ rfl⟩
  rw [getLast?_map, hold]
  rfl

/-- The scans of a wait that goes on have found nothing, and there was nothing to find. -/
theorem Wait.missed (hC : C.Documented host) (h : Wait host encodings limit marker scanned s)
    (hresumes : (scanned.map fun s => s.buffer stream).IsChain (Resumes C host (encodings stream) marker))
    (hblank : marker = "" → ∀ old ∈ scanned, (old.buffer stream).bytes ≠ []) :
    ∀ old ∈ scanned, ¬ WindowContains host (encodings stream) marker (old.buffer stream) := by
  induction h with
  | begin => exact fun old hold => (nomatch hold)
  | output _ _ ih => exact ih hresumes hblank
  | @check scanned s s' readersDrained expired request search hwait hstep hphase ih =>
    obtain ⟨request', search', W⟩ := hwait.waiting
    obtain ⟨hchain, hresumed⟩ := chain_windows hresumes
    have hearlier := ih hchain fun hmarker old hold => hblank hmarker old (mem_append_left _ hold)
    have hnow : ¬ WindowContains host (encodings stream) marker (s.buffer stream) := by
      have hblankNow : marker = "" → (s.buffer stream).bytes ≠ [] := fun hmarker =>
        hblank hmarker s (mem_append_right _ mem_cons_self)
      rw [← W.scan_iff hC hresumed hblankNow hearlier, (W.check hstep hphase).2 stream]
      exact Bool.false_ne_true
    intro old hold
    rcases mem_append.1 hold with hbefore | hnew
    · exact hearlier old hbefore
    · rw [mem_singleton.1 hnew]
      exact hnow

/-- In every wait whose scans all resume at a character, a scan finds the marker exactly when a search of
the whole window finds it, now or at an earlier scan. -/
theorem scan_iff_search (C : Converters) (host : TextHost) (hC : C.Documented host)
    (encodings : OutputStream → RuntimeTextEncoding) (limit : ℕ) (marker : String) (scanned : List Session)
    (s : Session) (request : ManagedProcessSessionReadRequest) (search : ManagedProcessMarkerSearch)
    (stream : OutputStream) (hwait : Wait host encodings limit marker scanned s)
    (hphase : s.phase = .waiting request search)
    (hresumes : ((scanned ++ [s]).map fun s => s.buffer stream).IsChain
      (Resumes C host (encodings stream) marker))
    (hblank : marker = "" → ∀ t ∈ scanned ++ [s], (t.buffer stream).bytes ≠ []) :
    s.scans host marker search stream = true ↔
      ∃ t ∈ scanned ++ [s], WindowContains host (encodings stream) marker (t.buffer stream) := by
  obtain ⟨request', search', W⟩ := hwait.waiting
  have hsearch : search' = search := (Phase.waiting.inj (W.phase.symm.trans hphase)).2
  subst hsearch
  have hnow := mem_append_right scanned (mem_singleton.2 (Eq.refl s))
  obtain ⟨hchain, hresumed⟩ := chain_windows hresumes
  have hearlier := hwait.missed hC hchain fun hmarker old hold =>
    hblank hmarker old (mem_append_left _ hold)
  rw [W.scan_iff hC hresumed (fun hmarker => hblank hmarker s hnow) hearlier]
  constructor
  · exact fun h => ⟨s, hnow, h⟩
  · rintro ⟨t, ht, hcontains⟩
    rcases mem_append.1 ht with hbefore | hlast
    · exact absurd hcontains (hearlier t hbefore)
    · rwa [mem_singleton.1 hlast] at hcontains

/-- A round that finds nothing before the deadline goes on waiting. -/
theorem checkOutput_missed (hmarker : request.untilText = some marker)
    (hscans : ∀ stream, s.scans host marker search stream = false) :
    s.checkOutput host request search (.ok false) false = { s with
      phase := .waiting request
        ⟨s.stdout.totalBytes, s.stderr.totalBytes, search.stdoutOverlap, search.stderrOverlap⟩ } := by
  have hstdout := hscans .stdout
  have hstderr := hscans .stderr
  simp only [Session.scans, Session.buffer, Session.encodingOf, ManagedProcessMarkerSearch.cursor,
    ManagedProcessMarkerSearch.overlap] at hstdout hstderr
  unfold Session.checkOutput
  simp only [hmarker, Session.hasReadableOutput, hstdout, hstderr, if_neg Bool.false_ne_true,
    containsMarkerSince_cursor]

/-! ## A group that the ring cuts -/

namespace Example

/-- Converters that write nothing. -/
def silent : StepDecoder UInt8 Char where
  step _ _ := ([], 0)
  fits _ := List.zero_le_length

theorem decode_silent (bytes : List UInt8) : silent.decode bytes = [] := by
  induction bytes with
  | nil => rfl
  | cons b bytes ih =>
    rw [StepDecoder.decode_cons]
    exact ih

theorem documented_plainHost : Converters.Documented ⟨silent, silent, silent, silent⟩ plainHost where
  gbk := ⟨fun _ _ _ _ => rfl, fun bytes _ => (decode_silent bytes).symm⟩
  gb18030 := ⟨fun _ _ _ _ => rfl, fun bytes _ => (decode_silent bytes).symm⟩
  codePages h := nomatch h

def untilMarker (marker : String) : ManagedProcessSessionReadRequest := ⟨1000, 65536, some marker⟩

section
variable (encoding : RuntimeTextEncoding) (limit : ℕ) (marker : String) (bytes bytes' : List UInt8)

/-- A read that waits for a marker on two streams of one encoding, after the first chunk. -/
def firstChunk : Session :=
  .mk encoding encoding limit (ManagedProcessOutputBuffer.appendBounded {} bytes limit) {}
    (.waiting (untilMarker marker) (.new plainHost (some marker) encoding encoding)) []

/-- The same read after a round and the second chunk. -/
def secondChunk : Session :=
  .mk encoding encoding limit
    ((ManagedProcessOutputBuffer.appendBounded {} bytes limit).appendBounded bytes' limit) {}
    (.waiting (untilMarker marker)
      ⟨(ManagedProcessOutputBuffer.appendBounded {} bytes limit).totalBytes, 0,
        markerSearchOverlapBytes plainHost marker encoding,
        markerSearchOverlapBytes plainHost marker encoding⟩) []

end

variable {bytes' : List UInt8} {limit : ℕ}

theorem wait_firstChunk : Wait plainHost (fun _ => encoding) limit marker []
    (firstChunk encoding limit marker bytes) := by
  have hbegin : Wait plainHost (fun _ => encoding) limit marker []
      ((Session.opened (fun _ => encoding) limit).beginRead plainHost (untilMarker marker) true) :=
    @Wait.begin _ _ _ _ [] _ true _ _ _ rfl rfl rfl rfl
  exact @Wait.output _ _ _ _ _ _ _ .stdout bytes hbegin rfl

theorem wait_secondChunk
    (hscans : ∀ stream, (firstChunk encoding limit marker bytes).scans plainHost marker
      (.new plainHost (some marker) encoding encoding) stream = false) :
    Wait plainHost (fun _ => encoding) limit marker [firstChunk encoding limit marker bytes]
      (secondChunk encoding limit marker bytes bytes') := by
  have hround := checkOutput_missed (Eq.refl (untilMarker marker).untilText) hscans
  have hcheck := Wait.check wait_firstChunk (congrArg some hround) rfl
  exact @Wait.output _ _ _ _ _ _ _ .stdout bytes' hcheck rfl

/-- A first scan finds nothing where a search of the whole windows would find nothing. -/
theorem firstChunk_missed
    (hmissed : ∀ stream, ¬ WindowContains plainHost encoding marker
      ((firstChunk encoding limit marker bytes).buffer stream))
    (hblank : marker ≠ "") (stream : OutputStream) :
    (firstChunk encoding limit marker bytes).scans plainHost marker
      (.new plainHost (some marker) encoding encoding) stream = false := by
  obtain ⟨request, search, W⟩ := (@wait_firstChunk encoding marker bytes limit).waiting
  obtain ⟨-, rfl⟩ := Phase.waiting.inj W.phase
  refine eq_false_of_ne_true fun h => hmissed stream ?_
  exact (W.scan_iff documented_plainHost (fun old hold => nomatch hold) (fun h => absurd h hblank)
    (fun old hold => nomatch hold)).1 h

theorem window_iff (h : encoding = .base64 ∨ encoding = .utf8) :
    WindowContains plainHost encoding marker buffer ↔
      marker.toList <:+: (Converters.decoder ⟨silent, silent, silent, silent⟩ plainHost encoding).decode
        buffer.bytes := by
  refine contains_iff documented_plainHost ?_
  rcases h with rfl | rfl <;> trivial

/-- The ring drops one byte of a group, and the scan decodes from the middle of the next one: the window
shows the marker, and the scan does not. -/
theorem scan_misses_cut_group :
    ∃ scanned s search, Wait plainHost (fun _ => .base64) 16 "QUJD" scanned s ∧
      s.phase = .waiting (untilMarker "QUJD") search ∧ s.scans plainHost "QUJD" search .stdout = false ∧
      ∃ t ∈ scanned ++ [s], WindowContains plainHost .base64 "QUJD" (t.buffer .stdout) := by
  have hmissed : ∀ stream, ¬ WindowContains plainHost .base64 "QUJD"
      ((firstChunk .base64 16 "QUJD" (0x58 :: 0x41 :: 0x42 :: 0x43 :: replicate 12 0)).buffer
        stream) := by
    intro stream
    rw [window_iff (.inl rfl)]
    cases stream <;> decide
  have hwait := @wait_secondChunk .base64 "QUJD" _ [0] 16 (firstChunk_missed hmissed (by decide))
  refine ⟨_, _, _, hwait, rfl, ?_, _, mem_append_right _ mem_cons_self, ?_⟩
  · have hblank : "QUJD" ≠ "" := by decide
    refine eq_false_of_ne_true fun h => ?_
    have hscan := (containsMarkerSince_iff documented_plainHost fun h => absurd h hblank).1 h
    have hregular : ∀ bytes, Regular plainHost bytes .base64 := fun _ => trivial
    have hdecoded := (contains_iff documented_plainHost (hregular _)).1 hscan
    revert hdecoded
    decide
  · rw [window_iff (.inl rfl)]
    decide

/-- A marker that two chunks share is found. -/
theorem scan_iff_search_cut :
    ∃ scanned s search, Wait plainHost (fun _ => .utf8) 65536 "ab" scanned s ∧
      s.phase = .waiting (untilMarker "ab") search ∧
      (s.scans plainHost "ab" search .stdout = true ↔
        ∃ t ∈ scanned ++ [s], WindowContains plainHost .utf8 "ab" (t.buffer .stdout)) := by
  have hmissed : ∀ stream, ¬ WindowContains plainHost .utf8 "ab"
      ((firstChunk .utf8 65536 "ab" (replicate 11 0x78 ++ [0x61])).buffer stream) := by
    intro stream
    rw [window_iff (.inr rfl)]
    cases stream <;> decide
  have hwait := @wait_secondChunk .utf8 "ab" _ [0x62] 65536 (firstChunk_missed hmissed (by decide))
  have hresumes : Resumes ⟨silent, silent, silent, silent⟩ plainHost .utf8 "ab"
      (firstChunk .utf8 65536 "ab" (replicate 11 0x78 ++ [0x61])).stdout
      (secondChunk .utf8 65536 "ab" (replicate 11 0x78 ++ [0x61]) [0x62]).stdout :=
    .utf8 (by decide) (by decide)
  have hblank : "ab" ≠ "" := by decide
  exact ⟨_, _, _, hwait, rfl, scan_iff_search ⟨silent, silent, silent, silent⟩ plainHost
    documented_plainHost (fun _ => .utf8) 65536 "ab" _ _ _ _ .stdout hwait rfl
    (.cons_cons hresumes (.singleton _)) fun h => absurd h hblank⟩

end Example

end LuaSkills.ProcessOutput
