import LuaSkills.ProcessOutput.Encoding
import Mathlib.Data.List.Infix

/-!
# Output of a managed process

The two bounded buffers that the pipe readers fill, and `read`, which waits for output or for a marker
in it and then drains both. A read is one of several threads: it is modelled by its steps, so that the
pipe readers append between them. The buffers are independent of one another; what a reader appends to
stderr between the scan of stdout and that of stderr can as well come before both.
-/

namespace LuaSkills.ProcessOutput

/-- `saturating_add` and its kin on 64 bits. -/
def saturate (n : ℕ) : ℕ := min n (2 ^ 64 - 1)

structure ManagedProcessOutputBuffer where
  bytes : List UInt8 := []
  totalBytes : ℕ := 0
  droppedBytes : ℕ := 0
deriving DecidableEq

structure ManagedProcessOutputStats where
  bufferedBytes : ℕ
  totalBytes : ℕ
  droppedBytes : ℕ
deriving DecidableEq

namespace ManagedProcessOutputBuffer

/-- `append_bounded`: only the newest bytes are retained. -/
def appendBounded (buffer : ManagedProcessOutputBuffer) (bytes : List UInt8) (limitBytes : ℕ) :
    ManagedProcessOutputBuffer :=
  let effectiveLimit := max limitBytes 1
  let buffer := { buffer with totalBytes := saturate (buffer.totalBytes + bytes.length) }
  if effectiveLimit ≤ bytes.length then
    let droppedCount := buffer.bytes.length + (bytes.length - effectiveLimit)
    { buffer with
      bytes := bytes.drop (bytes.length - effectiveLimit)
      droppedBytes := saturate (buffer.droppedBytes + droppedCount) }
  else
    let totalLen := buffer.bytes.length + bytes.length
    let buffer :=
      if effectiveLimit < totalLen then
        let overflow := totalLen - effectiveLimit
        { buffer with
          bytes := buffer.bytes.drop overflow
          droppedBytes := saturate (buffer.droppedBytes + overflow) }
      else buffer
    { buffer with bytes := buffer.bytes ++ bytes }

/-- `locked_output_buffer_stats`. -/
def stats (buffer : ManagedProcessOutputBuffer) : ManagedProcessOutputStats :=
  ⟨buffer.bytes.length, buffer.totalBytes, buffer.droppedBytes⟩

/-- `drain_output_buffer`: the drained bytes, and the buffer that remains. -/
def drain (buffer : ManagedProcessOutputBuffer) (maxBytes : ℕ) : List UInt8 × ManagedProcessOutputBuffer :=
  let count := min maxBytes buffer.bytes.length
  (buffer.bytes.take count, { buffer with bytes := buffer.bytes.drop count })

end ManagedProcessOutputBuffer

/-! ## Markers -/

structure ManagedProcessMarkerSearch where
  stdoutCursor : ℕ
  stderrCursor : ℕ
  stdoutOverlap : ℕ
  stderrOverlap : ℕ
deriving DecidableEq

section
variable (host : TextHost)

def markerSearchOverlapBytes (marker : String) (encoding : RuntimeTextEncoding) : ℕ :=
  let fallback := saturate (saturate (marker.utf8ByteSize * 4) + 8)
  match encoding with
  | .base64 => saturate ((saturate (marker.utf8ByteSize * 3) + 3) / 4 + 6)
  | encoding =>
    match host.encodeRuntimeText marker encoding with
    | .ok bytes => saturate (bytes.length + 8)
    | .error _ => fallback

def ManagedProcessMarkerSearch.new (marker : Option String)
    (stdoutEncoding stderrEncoding : RuntimeTextEncoding) : ManagedProcessMarkerSearch where
  stdoutCursor := 0
  stderrCursor := 0
  stdoutOverlap := (marker.map fun marker => markerSearchOverlapBytes host marker stdoutEncoding).getD 0
  stderrOverlap := (marker.map fun marker => markerSearchOverlapBytes host marker stderrEncoding).getD 0

/-- `str::contains`. -/
def contains (text marker : String) : Bool := marker.toList <:+: text.toList

namespace ManagedProcessOutputBuffer

/-- The absolute position of the oldest retained byte. -/
def retainedStart (buffer : ManagedProcessOutputBuffer) : ℕ := buffer.totalBytes - buffer.bytes.length

/-- How many retained bytes a scan leaves out. -/
def alignedSkip (buffer : ManagedProcessOutputBuffer) (encoding : RuntimeTextEncoding) (cursor overlap : ℕ) :
    ℕ :=
  let scanStart := max (cursor - overlap) buffer.retainedStart
  let skipBytes := min (scanStart - buffer.retainedStart) buffer.bytes.length
  if encoding = .base64 then skipBytes - skipBytes % 3 else skipBytes

/-- `output_buffer_contains_marker_since`: the answer and the new cursor. -/
def containsMarkerSince (buffer : ManagedProcessOutputBuffer) (encoding : RuntimeTextEncoding)
    (marker : String) (cursor overlap : ℕ) : Bool × ℕ :=
  if buffer.bytes = [] then (false, buffer.totalBytes)
  else
    let scanBytes := buffer.bytes.drop (buffer.alignedSkip encoding cursor overlap)
    (contains (host.decodeRuntimeText scanBytes encoding).text marker, buffer.totalBytes)

end ManagedProcessOutputBuffer

end

/-! ## Sessions -/

structure ManagedProcessSessionReadRequest where
  timeoutMs : ℕ
  maxBytes : ℕ
  untilText : Option String
deriving DecidableEq

structure ManagedProcessSessionReadResult where
  stdout : String
  stderr : String
  stdoutEncoding : String
  stderrEncoding : String
  stdoutLossy : Bool
  stderrLossy : Bool
  stdoutBase64 : Option String
  stderrBase64 : Option String
  timedOut : Bool
  stdoutStats : ManagedProcessOutputStats
  stderrStats : ManagedProcessOutputStats
deriving DecidableEq

inductive Phase where
  | idle
  | waiting (request : ManagedProcessSessionReadRequest) (search : ManagedProcessMarkerSearch)
  | leaving (request : ManagedProcessSessionReadRequest) (timedOut : Bool)
deriving DecidableEq

structure Session where
  stdoutEncoding : RuntimeTextEncoding
  stderrEncoding : RuntimeTextEncoding
  bufferLimitBytes : ℕ
  stdout : ManagedProcessOutputBuffer := {}
  stderr : ManagedProcessOutputBuffer := {}
  phase : Phase := .idle
  /-- What the reads have returned. -/
  answers : List (Except String ManagedProcessSessionReadResult) := []

inductive OutputStream where
  | stdout | stderr
deriving DecidableEq

inductive Event where
  /-- A pipe reader appends a chunk. -/
  | output (stream : OutputStream) (bytes : List UInt8)
  /-- A read begins; the clock tells whether it can represent the deadline. -/
  | begin (request : ManagedProcessSessionReadRequest) (deadline : Bool)
  /-- A round of the waiting loop; the environment tells whether the pipe readers are done and whether
  the deadline has passed. -/
  | check (readersDrained : Except String Bool) (expired : Bool)
  /-- The read drains the buffers and returns. -/
  | finish

def maxSessionTimeoutMs : ℕ := 2 ^ 32 - 1 - 1

def checkedTimeoutDeadline (timeoutMs : ℕ) (fieldName : String) (deadline : Bool) : Except String Unit := do
  refuseIf (maxSessionTimeoutMs < timeoutMs) s!"{fieldName} is too large; maximum is {maxSessionTimeoutMs}"
  refuseIf (deadline = false) s!"{fieldName} is too large"

namespace Session
variable (host : TextHost)

def answer (s : Session) (result : Except String ManagedProcessSessionReadResult) : Session :=
  { s with phase := .idle, answers := s.answers ++ [result] }

def hasReadableOutput (s : Session) (untilText : Option String) (search : ManagedProcessMarkerSearch) :
    Bool × ManagedProcessMarkerSearch :=
  match untilText with
  | none => (decide (s.stdout.bytes ≠ []) || decide (s.stderr.bytes ≠ []), search)
  | some marker =>
    let (found, cursor) :=
      s.stdout.containsMarkerSince host s.stdoutEncoding marker search.stdoutCursor search.stdoutOverlap
    let search := { search with stdoutCursor := cursor }
    if found then (true, search)
    else
      let (found, cursor) :=
        s.stderr.containsMarkerSince host s.stderrEncoding marker search.stderrCursor search.stderrOverlap
      (found, { search with stderrCursor := cursor })

/-- The checks of `read` before its loop. -/
def beginRead (s : Session) (request : ManagedProcessSessionReadRequest) (deadline : Bool) : Session :=
  let checks : Except String Unit := do
    refuseIf (request.maxBytes = 0) "max_bytes must be greater than zero"
    checkedTimeoutDeadline request.timeoutMs "read timeout_ms" deadline
  match checks with
  | .error message => s.answer (.error message)
  | .ok _ =>
    { s with
      phase := .waiting request
        (ManagedProcessMarkerSearch.new host request.untilText s.stdoutEncoding s.stderrEncoding) }

def checkOutput (s : Session) (request : ManagedProcessSessionReadRequest)
    (search : ManagedProcessMarkerSearch) (readersDrained : Except String Bool) (expired : Bool) : Session :=
  let (found, search) := s.hasReadableOutput host request.untilText search
  if found then { s with phase := .leaving request false }
  else
    match readersDrained with
    | .error message => s.answer (.error message)
    | .ok true => { s with phase := .leaving request false }
    | .ok false =>
      if expired then { s with phase := .leaving request true }
      else { s with phase := .waiting request search }

def finishRead (s : Session) (request : ManagedProcessSessionReadRequest) (timedOut : Bool) : Session :=
  let (stdoutBytes, stdoutBuffer) := s.stdout.drain request.maxBytes
  let (stderrBytes, stderrBuffer) := s.stderr.drain request.maxBytes
  let stdout := host.decodeRuntimeText stdoutBytes s.stdoutEncoding
  let stderr := host.decodeRuntimeText stderrBytes s.stderrEncoding
  { s with stdout := stdoutBuffer, stderr := stderrBuffer }.answer (.ok
    { stdout := stdout.text
      stderr := stderr.text
      stdoutEncoding := stdout.encoding
      stderrEncoding := stderr.encoding
      stdoutLossy := stdout.lossy
      stderrLossy := stderr.lossy
      stdoutBase64 := stdout.base64
      stderrBase64 := stderr.base64
      timedOut := timedOut
      stdoutStats := stdoutBuffer.stats
      stderrStats := stderrBuffer.stats })

/-- One event; `none` if it cannot happen now. -/
def step (s : Session) : Event → Option Session
  | .output .stdout bytes => some { s with stdout := s.stdout.appendBounded bytes s.bufferLimitBytes }
  | .output .stderr bytes => some { s with stderr := s.stderr.appendBounded bytes s.bufferLimitBytes }
  | .begin request deadline =>
    match s.phase with
    | .idle => some (s.beginRead host request deadline)
    | _ => none
  | .check readersDrained expired =>
    match s.phase with
    | .waiting request search => some (s.checkOutput host request search readersDrained expired)
    | _ => none
  | .finish =>
    match s.phase with
    | .leaving request timedOut => some (s.finishRead host request timedOut)
    | _ => none

def run (s : Session) (events : List Event) : Option Session := events.foldlM (step host) s

/-- The answers that are no errors. -/
def results (s : Session) : List ManagedProcessSessionReadResult := s.answers.filterMap Except.toOption

end Session

/-- What a stream gets in an event. -/
def Event.bytesOf (stream : OutputStream) : Event → List UInt8
  | .output stream' bytes => if stream' = stream then bytes else []
  | _ => []

end LuaSkills.ProcessOutput
