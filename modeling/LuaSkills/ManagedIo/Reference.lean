import LuaSkills.ManagedIo.Publication

/-!
# Handles as positioned byte stores

A handle in binary form is compared with a reference file: bytes with a position that reads and writes start
from and move, and append modes that write at the end. With no other writer and no failing call every
outcome is that of the reference file, and after the close the file holds its bytes, if a handle for writing
alone writes only where its buffer ends.
-/

namespace LuaSkills.ManagedIo

open EStateM ManagedIoFileState List Except ManagedIo

variable {request : ReadRequest} {format : LuaValue} {formats values : List LuaValue}
  {whence : Option String} {offset : Option Int}

/-! ## The reference file -/

/-- A file with a position. An append-only handle counts positions from the end that the file had, after
`kept`. -/
structure ReferenceFile where
  mode : ManagedIoOpenMode
  kept : List UInt8
  bytes : List UInt8
  position : ℕ

/-- What a read format asks for. -/
inductive ReadRequest where
  | all
  | line
  | count (size : ℕ)

def readRequest : LuaValue → Except Stop ReadRequest
  | .nil => .ok .line
  | .string text =>
    match toStr text with
    | none => .error (.runtime "file:read format must be valid UTF-8")
    | some format =>
      if format = "*a" ∨ format = "a" then .ok .all
      else if format = "*l" ∨ format = "l" then .ok .line
      else .error (.runtime ("file:read unsupported format `" ++ format ++ "`"))
  | .integer (.ofNat size) => .ok (.count size)
  | .number (some size) _ => .ok (.count size)
  | other => .error (.runtime ("file:read unsupported format argument " ++ luaValueTypeName other))

def stripReturn (line : List UInt8) : List UInt8 :=
  if line.getLast? = some carriageReturn then line.dropLast else line

namespace ReferenceFile

def content (r : ReferenceFile) : List UInt8 := r.kept ++ r.bytes

def rest (r : ReferenceFile) : List UInt8 := r.bytes.drop r.position

/-- The position moved forward, but not past the end. -/
def advance (r : ReferenceFile) (n : ℕ) : ReferenceFile :=
  { r with position := min (r.position + n) r.bytes.length }

def read (r : ReferenceFile) : ReadRequest → LuaValue × ReferenceFile
  | .all => (.string r.rest, r.advance r.rest.length)
  | .line =>
    if r.rest = [] then (.nil, r)
    else
      let line := r.rest.takeWhile (· ≠ lineFeed)
      (.string (stripReturn line), r.advance (line.length + 1))
  | .count size =>
    if size = 0 then (.string [], r)
    else if r.rest = [] then (.nil, r)
    else (.string (r.rest.take size), r.advance size)

def answer (request : ReadRequest) : EStateM Stop ReferenceFile LuaValue := fun r =>
  if r.mode.kind = .read ∨ r.mode.update = true then .ok (r.read request).1 (r.read request).2
  else .error (.runtime "file:read: file is not opened for reading") r

def readOne (format : LuaValue) : EStateM Stop ReferenceFile LuaValue :=
  match readRequest format with
  | .ok request => answer request
  | .error e => throw e

def readEach : List LuaValue → EStateM Stop ReferenceFile (List LuaValue)
  | [] => pure []
  | format :: formats => do
    let value ← readOne format
    return value :: (← readEach formats)

def readValues (formats : List LuaValue) : EStateM Stop ReferenceFile (List LuaValue) :=
  if formats = [] then return [← answer .line] else readEach formats

/-- Where a write goes: to the end in the append modes, to the position in the others. -/
def target (r : ReferenceFile) : ℕ := if r.mode.kind = .append then r.bytes.length else r.position

def put (r : ReferenceFile) (bytes : List UInt8) : ReferenceFile :=
  { r with bytes := r.bytes.overlay 0 r.target bytes, position := r.target + bytes.length }

def writeEach (c : TextCodec) : List LuaValue → EStateM Stop ReferenceFile Unit
  | [] => pure ()
  | value :: values => fun r =>
    match luaValueToOutputBytes c value r.mode.binary with
    | .error e => .error e r
    | .ok bytes => writeEach c values (r.put bytes)

def writeValues (c : TextCodec) (values : List LuaValue) : EStateM Stop ReferenceFile Bool := fun r =>
  if r.mode.kind = .read ∧ r.mode.update = false then
    .error (.runtime "file:write: file is not opened for writing") r
  else (do writeEach c values; return true : EStateM Stop ReferenceFile Bool) r

/-- The position that a seek asks for; it may lie after the end. -/
def aim (r : ReferenceFile) (whence : Option String) (offset : Option Int) : Except Stop ℕ := do
  let n : Int ←
    match whence.getD "cur" with
    | "set" => .ok (offset.getD 0)
    | "cur" => .ok (r.position + offset.getD 0)
    | "end" => .ok (r.bytes.length + offset.getD 0)
    | other => .error (.runtime ("file:seek unsupported whence `" ++ other ++ "`"))
  if n < -2 ^ 63 ∨ 2 ^ 63 ≤ n then .error (.runtime "file:seek offset overflow")
  else if n < 0 then .error (.runtime "file:seek offset before start")
  else .ok n.toNat

def seek (whence : Option String) (offset : Option Int) : EStateM Stop ReferenceFile ℕ := fun r =>
  match r.aim whence offset with
  | .error e => .error e r
  | .ok n => .ok (min n r.bytes.length) { r with position := min n r.bytes.length }

end ReferenceFile

/-- The reference file of a handle that is opened in `mode`; `file` is what the path holds. -/
def ReferenceFile.opened (mode : ManagedIoOpenMode) (file : Option (List UInt8)) : ReferenceFile where
  mode := mode
  kept := if mode.kind = .append ∧ mode.update = false then file.getD [] else []
  bytes := if mode.kind = .write ∨ mode.kind = .append ∧ mode.update = false then [] else file.getD []
  position := 0

/-! ## Operations -/

inductive Operation where
  | read (formats : List LuaValue)
  | write (values : List LuaValue)
  | seek (whence : Option String) (offset : Option Int)
  | flush

inductive Outcome where
  | values (values : List LuaValue)
  | flag (b : Bool)
  | position (n : ℕ)

/-- An operation on the buffer of a handle, next to its file. -/
def besideFile {α : Type} (x : HandleProg α) : EStateM Stop (ManagedIoFileState × FilePlace) α :=
  fun (s, p) =>
    match x s with
    | .ok a s' => .ok a (s', p)
    | .error e s' => .error e (s', p)

namespace Operation

/-- The operation of the handle, with no call failing. -/
def perform (observed : Observed) (c : TextCodec) :
    Operation → EStateM Stop (ManagedIoFileState × FilePlace) Outcome
  | .read formats => besideFile (do return .values (← readValues c formats))
  | .write values => besideFile (do return .flag (← writeValues c values))
  | .seek whence offset => besideFile (do return .position (← ManagedIo.seek whence offset))
  | .flush => fun (s, p) =>
    match ManagedIo.flush observed (s, ⟨p, []⟩) with
    | .ok b (s', w) => .ok (.flag b) (s', w.place)
    | .error e (s', w) => .error e (s', w.place)

def refer (c : TextCodec) : Operation → EStateM Stop ReferenceFile Outcome
  | .read formats => do return .values (← ReferenceFile.readValues formats)
  | .write values => do return .flag (← ReferenceFile.writeValues c values)
  | .seek whence offset => do return .position (← ReferenceFile.seek whence offset)
  | .flush => return .flag true

end Operation

/-! ## The handle against the reference -/

/-- The buffer and the cursor of an open handle in binary form are the bytes and the position. -/
structure Matches (s : ManagedIoFileState) (r : ReferenceFile) : Prop where
  opened : s.closed = false
  binary : s.mode.binary = true
  mode : s.mode = r.mode
  buffer : s.buffer = r.bytes
  cursor : s.cursor = r.position
  bounded : s.cursor ≤ s.buffer.length

section
variable {c : TextCodec} {s : ManagedIoFileState} {r : ReferenceFile}

theorem slice_rest (h : Matches s r) : slice s.buffer s.cursor s.buffer.length = .ok r.rest := by
  rw [slice, if_pos ⟨h.bounded, Nat.le_refl _⟩, ReferenceFile.rest, h.buffer, h.cursor,
    extract_eq_take_drop, take_of_length_le (by simp)]

theorem rest_eq_nil (h : Matches s r) : r.rest = [] ↔ s.cursor ≥ s.buffer.length := by
  rw [ReferenceFile.rest, drop_eq_nil_iff, h.buffer, h.cursor]

/-- A read only moves the position. -/
theorem read_moves (r : ReferenceFile) (request : ReadRequest) :
    (r.read request).2 = { r with position := (r.read request).2.position } := by
  cases request with
  | all => rfl
  | line =>
    simp only [ReferenceFile.read]
    split <;> rfl
  | count size =>
    simp only [ReferenceFile.read]
    split
    · rfl
    · split <;> rfl

theorem read_bounded (hr : r.position ≤ r.bytes.length) (request : ReadRequest) :
    (r.read request).2.position ≤ r.bytes.length := by
  have hadvance : ∀ n, (r.advance n).position ≤ r.bytes.length := fun n => Nat.min_le_right _ _
  cases request with
  | all => exact hadvance _
  | line =>
    simp only [ReferenceFile.read]
    split
    · exact hr
    · exact hadvance _
  | count size =>
    simp only [ReferenceFile.read]
    split
    · exact hr
    · split
      · exact hr
      · exact hadvance _

/-- An operation behind the check for reading answers the request if it reads what the reference reads. -/
theorem agree_answer (h : Matches s r)
    (hop : op s = .ok ((r.read request).1, { s with cursor := (r.read request).2.position })) :
    Agree Matches (checked checkRead op) (ReferenceFile.answer request) s r := by
  have hcheck : checkRead s = refuseIf (s.mode.kind ≠ .read ∧ ¬ s.mode.update = true)
      (.runtime "file:read: file is not opened for reading") := by
    rw [checkRead, ensureFileIsOpen, h.opened]
    rfl
  by_cases hreadable : r.mode.kind = .read ∨ r.mode.update = true
  · have hbound := read_bounded (h.buffer ▸ h.cursor ▸ h.bounded) request
    have hmatches : Matches { s with cursor := (r.read request).2.position } (r.read request).2 := by
      rw [read_moves r request]
      exact ⟨h.opened, h.binary, h.mode, h.buffer, rfl, h.buffer ▸ hbound⟩
    refine .of_ok (a := (r.read request).1) ?_ (if_pos hreadable) hmatches
    rw [← h.mode] at hreadable
    rw [checked, hcheck, refuseIf_of_not (by tauto)]
    simp only [hop]
  · refine .of_error ?_ (if_neg hreadable) h
    rw [← h.mode, not_or] at hreadable
    rw [checked, hcheck, refuseIf, if_pos hreadable]

theorem simulates_readAll : Simulates Matches (readAll c) (ReferenceFile.answer .all) := by
  intro s r h
  apply agree_answer h
  have hposition : (r.read .all).2.position = s.buffer.length := by
    have hbounded := h.bounded
    rw [h.buffer, h.cursor] at hbounded
    simp only [ReferenceFile.read, ReferenceFile.advance, ReferenceFile.rest, length_drop]
    rw [h.buffer]
    omega
  rw [slice_rest h, h.binary, hposition]
  rfl

theorem simulates_readByteCount :
    Simulates Matches (readByteCount c size) (ReferenceFile.answer (.count size)) := by
  intro s r h
  apply agree_answer h
  have hbinary := h.binary
  have hcursor := h.cursor
  simp only [ReferenceFile.read]
  by_cases hzero : size = 0
  · rw [if_pos hzero, if_pos hzero, hbinary, ← hcursor]
    rfl
  · rw [if_neg hzero, if_neg hzero]
    by_cases hend : r.rest = []
    · rw [if_pos hend, if_pos ((rest_eq_nil h).1 hend), ← hcursor]
    · have hlt : ¬ s.cursor ≥ s.buffer.length := fun hge => hend ((rest_eq_nil h).2 hge)
      have hslice : slice s.buffer s.cursor (min (s.cursor + size) s.buffer.length) =
          .ok (r.rest.take size) := by
        rw [slice, if_pos (by omega), ReferenceFile.rest, extract_eq_take_drop, h.buffer, h.cursor]
        refine congrArg _ (take_eq_take_iff.2 ?_)
        rw [← h.buffer, ← hcursor, length_drop]
        omega
      rw [if_neg hend, if_neg hlt, hslice, hbinary]
      simp only [ReferenceFile.advance, ← h.buffer, ← hcursor]
      rfl

/-- The first line feed ends the line; without one the line is the whole. -/
theorem lineEnd_spec (xs : List UInt8) :
    (xs.findIdx? (· == lineFeed)).getD xs.length = (xs.takeWhile (· ≠ lineFeed)).length ∧
      xs.take (xs.takeWhile (· ≠ lineFeed)).length = xs.takeWhile (· ≠ lineFeed) ∧
      ((xs.takeWhile (· ≠ lineFeed)).length < xs.length →
        xs[(xs.takeWhile (· ≠ lineFeed)).length]? = some lineFeed) := by
  induction xs with
  | nil => exact ⟨rfl, rfl, nofun⟩
  | cons x xs ih =>
    obtain ⟨hend, htake, hfeed⟩ := ih
    rw [findIdx?_cons]
    by_cases hx : x = lineFeed
    · simp [hx]
    · simp only [beq_iff_eq, hx, if_false, ne_eq, not_false_eq_true, decide_true,
        takeWhile_cons_of_pos, length_cons, take_succ_cons, getElem?_cons_succ]
      refine ⟨?_, congrArg _ htake, fun hlt => hfeed (Nat.lt_of_succ_lt_succ hlt)⟩
      rw [← hend]
      cases xs.findIdx? (· == lineFeed) <;> simp

theorem simulates_readOneLine : Simulates Matches (readOneLine c) (ReferenceFile.answer .line) := by
  intro s r h
  apply agree_answer h
  have hbinary := h.binary
  have hcursor := h.cursor
  simp only [ReferenceFile.read]
  by_cases hend : r.rest = []
  · rw [if_pos hend, if_pos ((rest_eq_nil h).1 hend), ← hcursor]
  · have hlt : ¬ s.cursor ≥ s.buffer.length := fun hge => hend ((rest_eq_nil h).2 hge)
    obtain ⟨hlineEnd, htake, hfeed⟩ := lineEnd_spec r.rest
    have hrest : r.rest = s.buffer.drop s.cursor := by rw [ReferenceFile.rest, h.buffer, hcursor]
    have hlen : r.rest.length = s.buffer.length - s.cursor := by rw [hrest, length_drop]
    obtain ⟨n, hn⟩ : ∃ n, n = (r.rest.takeWhile (· ≠ lineFeed)).length := ⟨_, rfl⟩
    have hle : n ≤ r.rest.length := hn ▸ (List.takeWhile_prefix _).length_le
    rw [← hn] at hlineEnd htake hfeed
    have hslice : slice s.buffer s.cursor (s.cursor + n) = .ok (r.rest.takeWhile (· ≠ lineFeed)) := by
      rw [slice, if_pos (by omega), extract_eq_take_drop, Nat.add_sub_cancel_left, ← hrest, htake]
    have hnext : (if s.buffer[s.cursor + n]? = some lineFeed then s.cursor + n + 1 else s.cursor + n) =
        min (s.cursor + (n + 1)) s.buffer.length := by
      have hat : s.buffer[s.cursor + n]? = r.rest[n]? := by rw [hrest, getElem?_drop]
      rw [hat]
      by_cases hlast : n < r.rest.length
      · rw [if_pos (hfeed hlast)]
        omega
      · rw [getElem?_eq_none (by omega), if_neg nofun]
        omega
    rw [if_neg hend, if_neg hlt, slice_rest h]
    simp only [ok_bind]
    rw [hlineEnd, hslice]
    simp only [ok_bind]
    rw [hnext, hbinary]
    simp only [ReferenceFile.advance, ← h.buffer, ← hcursor, ← hn]
    rfl

theorem simulates_readOne :
    Simulates Matches (readOne c format) (ReferenceFile.readOne format) := by
  cases format with
  | nil => exact simulates_readOneLine
  | boolean b => exact .throw
  | other name => exact .throw
  | integer n =>
    cases n with
    | ofNat size => exact simulates_readByteCount
    | negSucc n => exact .throw
  | number size text =>
    cases size with
    | none => exact .throw
    | some size => exact simulates_readByteCount
  | string text =>
    simp only [readOne, ReferenceFile.readOne, readRequest]
    cases toStr text with
    | none => exact .throw
    | some format =>
      by_cases hall : format = "*a" ∨ format = "a"
      · simp only [if_pos hall]
        exact simulates_readAll
      · by_cases hline : format = "*l" ∨ format = "l"
        · simp only [if_neg hall, if_pos hline]
          exact simulates_readOneLine
        · simp only [if_neg hall, if_neg hline]
          exact .throw

theorem simulates_readValues :
    Simulates Matches (readValues c formats) (ReferenceFile.readValues formats) := by
  have heach : ∀ formats, Simulates Matches (readEach c formats) (ReferenceFile.readEach formats) := by
    intro formats
    induction formats with
    | nil => exact .pure
    | cons format formats ih => exact .bind simulates_readOne fun _ => .bind ih fun _ => .pure
  unfold readValues ReferenceFile.readValues
  split
  · exact .bind simulates_readOneLine fun _ => .pure
  · exact heach formats

theorem simulates_seek :
    Simulates Matches (seek whence offset) (ReferenceFile.seek whence offset) := by
  intro s r h
  have htarget : s.seekTarget whence offset = r.aim whence offset := by
    unfold seekTarget ReferenceFile.aim
    rw [h.cursor, h.buffer]
    generalize whence.getD "cur" = base
    split
    next => simp only [ok_bind, Int.zero_add]
    next => rfl
    next => rfl
    next hset hcur hend =>
      simp_all only [imp_false]
      rfl
  have hcheck : s.ensureFileIsOpen "file:seek" = .ok () := by
    rw [ensureFileIsOpen, h.opened]
    rfl
  unfold seek
  cases haim : r.aim whence offset with
  | error e =>
    refine .of_error (e := e) ?_ ?_ h
    · rw [checked, hcheck, htarget, haim]
      rfl
    · rw [ReferenceFile.seek, haim]
  | ok n =>
    have hmatches : Matches { s with cursor := min n s.buffer.length }
        { r with position := min n r.bytes.length } :=
      ⟨h.opened, h.binary, h.mode, h.buffer, by rw [h.buffer], Nat.min_le_right _ _⟩
    refine .of_ok (a := min n s.buffer.length) ?_ ?_ hmatches
    · rw [checked, hcheck, htarget, haim]
      rfl
    · rw [ReferenceFile.seek, haim, h.buffer]

/-- The handle writes where the reference writes. -/
def Aimed (s : ManagedIoFileState) : Prop :=
  s.mode.update = false → s.mode.kind = .write → s.cursor = s.buffer.length

def Writable (m : ManagedIoOpenMode) : Prop := ¬ (m.kind = .read ∧ m.update = false)

theorem matches_writeBytes (bytes : List UInt8) (h : Matches s r) (hwritable : Writable s.mode)
    (haimed : Aimed s) : Matches (s.writeBytes bytes) (r.put bytes) ∧ Aimed (s.writeBytes bytes) := by
  have htarget : r.target = s.writePosition := by
    rw [ReferenceFile.target, writePosition, h.mode, h.buffer, h.cursor]
  unfold writeBytes
  split
  next hupdate =>
    refine ⟨⟨h.opened, h.binary, h.mode, ?_, ?_, ?_⟩, fun hno => ?_⟩
    · simp only [ReferenceFile.put, htarget, h.buffer]
    · simp only [ReferenceFile.put, htarget]
    · simp only [length_overlay]
      exact Nat.le_max_right _ _
    · simp only at hno
      rw [hupdate] at hno
      cases hno
  next hupdate =>
    have hmode : s.mode.update = false := Bool.eq_false_iff.2 hupdate
    have hend : r.target = r.bytes.length := by
      rw [htarget, writePosition, ← h.buffer]
      split
      · rfl
      next hkind =>
        apply haimed hmode
        cases hmodeKind : s.mode.kind with
        | read => exact absurd ⟨hmodeKind, hmode⟩ hwritable
        | write => rfl
        | append => exact absurd hmodeKind hkind
    refine ⟨⟨h.opened, h.binary, h.mode, ?_, ?_, Nat.le_refl _⟩, fun _ _ => rfl⟩
    · simp only [ReferenceFile.put, hend, overlay_length, h.buffer]
    · simp only [ReferenceFile.put, hend, length_append, h.buffer]

theorem agree_writeEach (h : Matches s r) (hwritable : Writable s.mode)
    (haimed : Aimed s) : Agree Matches (writeEach c values) (ReferenceFile.writeEach c values) s r := by
  induction values generalizing s r with
  | nil => exact .pure h
  | cons value values ih =>
    cases hbytes : luaValueToOutputBytes c value s.mode.binary with
    | error e =>
      refine .of_error (e := e) ?_ ?_ h
      · simp only [writeEach, hbytes]
      · simp only [ReferenceFile.writeEach, ← h.mode, hbytes]
    | ok bytes =>
      obtain ⟨hmatches, haimed'⟩ := matches_writeBytes bytes h hwritable haimed
      have hmode : (s.writeBytes bytes).mode = s.mode := by rw [hmatches.mode, h.mode, ReferenceFile.put]
      obtain ⟨houtcome, hlast⟩ := ih hmatches (hmode ▸ hwritable) haimed'
      constructor
      · simpa only [EStateM.outcome, writeEach, ReferenceFile.writeEach, ← h.mode, hbytes] using houtcome
      · simpa only [final, writeEach, ReferenceFile.writeEach, ← h.mode, hbytes] using hlast

def WritesNothing (c : TextCodec) (s : ManagedIoFileState) (values : List LuaValue) : Prop :=
  ∀ value, values.head? = some value → ∃ e, luaValueToOutputBytes c value s.mode.binary = .error e

theorem agree_writeValues (h : Matches s r)
    (haimed : Aimed s ∨ WritesNothing c s values) :
    Agree Matches (writeValues c values) (ReferenceFile.writeValues c values) s r := by
  have hcheck : checkWrite s = refuseIf (s.mode.kind = .read ∧ ¬ s.mode.update = true)
      (.runtime "file:write: file is not opened for writing") := by
    rw [checkWrite, ensureFileIsOpen, h.opened]
    rfl
  by_cases hwritable : Writable s.mode
  · have hwrite : Agree Matches (writeEach c values) (ReferenceFile.writeEach c values) s r := by
      rcases haimed with haimed | hnothing
      · exact agree_writeEach h hwritable haimed
      · cases values with
        | nil => exact .pure h
        | cons value values =>
          obtain ⟨e, he⟩ := hnothing value rfl
          refine .of_error (e := e) ?_ ?_ h
          · simp only [writeEach, he]
          · simp only [ReferenceFile.writeEach, ← h.mode, he]
    have hrun := hwrite.bind (f := fun _ => (pure true : HandleProg Bool)) (g := fun _ => pure true)
      fun _ _ _ _ h' => .pure h'
    have hrefuse : ¬ (r.mode.kind = .read ∧ r.mode.update = false) := h.mode ▸ hwritable
    have hchecked : checked checkWrite (fun s => .ok ((), s)) s = .ok () s := by
      rw [checked, hcheck, refuseIf_of_not (by rw [Bool.not_eq_true]; exact hwritable)]
    constructor
    · simp only [writeValues, EStateM.outcome, ReferenceFile.writeValues, if_neg hrefuse,
        bind_of_ok hchecked]
      exact hrun.outcome
    · simp only [writeValues, final, ReferenceFile.writeValues, if_neg hrefuse, bind_of_ok hchecked]
      exact hrun.related
  · have hno : s.mode.kind = .read ∧ s.mode.update = false := not_not.1 hwritable
    refine .of_error (e := .runtime "file:write: file is not opened for writing") ?_ ?_ h
    · refine bind_of_error ?_
      rw [checked, hcheck, refuseIf, if_pos (by rw [Bool.not_eq_true]; exact hno)]
    · rw [ReferenceFile.writeValues, if_pos (h.mode ▸ hno)]

end

/-! ## The handle with its file -/

/-- What reads, writes and seeks leave of a reference file. -/
structure SameFile (r₀ r : ReferenceFile) : Prop where
  kept : r.kept = r₀.kept
  mode : r.mode = r₀.mode
  bytes : ¬ Writable r₀.mode → r.bytes = r₀.bytes

def KeepsFile {α : Type} (y : EStateM Stop ReferenceFile α) : Prop :=
  ∀ r₀, Triple (SameFile r₀) y (fun _ => SameFile r₀) (SameFile r₀)

section
variable {α : Type} {c : TextCodec}

theorem KeepsFile.bind {β : Type} {y : EStateM Stop ReferenceFile α} {g : α → EStateM Stop ReferenceFile β}
    (h : KeepsFile y) (hg : ∀ a, KeepsFile (g a)) : KeepsFile (y >>= g) := fun r₀ =>
  (h r₀).bind fun a => hg a r₀

theorem KeepsFile.pure {a : α} : KeepsFile (Pure.pure a : EStateM Stop ReferenceFile α) := fun _ =>
  .pure fun _ h => h

theorem KeepsFile.throw {e : Stop} : KeepsFile (MonadExcept.throw e : EStateM Stop ReferenceFile α) :=
  fun _ => .throw fun _ h => h

theorem keepsFile_answer : KeepsFile (ReferenceFile.answer request) := by
  intro r₀ r h
  unfold ReferenceFile.answer
  split
  next hreadable =>
    split at hreadable
    · cases hreadable
      rw [read_moves r request]
      exact ⟨h.kept, h.mode, h.bytes⟩
    · cases hreadable
  next hreadable =>
    split at hreadable
    · cases hreadable
    · cases hreadable
      exact h

theorem keepsFile_readOne : KeepsFile (ReferenceFile.readOne format) := by
  unfold ReferenceFile.readOne
  split
  · exact keepsFile_answer
  · exact .throw

theorem keepsFile_readValues : KeepsFile (ReferenceFile.readValues formats) := by
  have heach : ∀ formats, KeepsFile (ReferenceFile.readEach formats) := by
    intro formats
    induction formats with
    | nil => exact .pure
    | cons format formats ih => exact .bind keepsFile_readOne fun _ => .bind ih fun _ => .pure
  unfold ReferenceFile.readValues
  split
  · exact .bind keepsFile_answer fun _ => .pure
  · exact heach formats

theorem keepsFile_seek :
    KeepsFile (ReferenceFile.seek whence offset) := by
  intro r₀ r h
  unfold ReferenceFile.seek
  cases r.aim whence offset with
  | error e => exact h
  | ok n => exact ⟨h.kept, h.mode, h.bytes⟩

theorem keepsFile_writeValues :
    KeepsFile (ReferenceFile.writeValues c values) := by
  intro r₀ r h
  by_cases hwritable : Writable r₀.mode
  · have heach : ∀ values, Triple (SameFile r₀) (ReferenceFile.writeEach c values)
        (fun _ => SameFile r₀) (SameFile r₀) := by
      intro values
      induction values with
      | nil => exact .pure fun _ h => h
      | cons value values ih =>
        intro r h
        unfold ReferenceFile.writeEach
        cases luaValueToOutputBytes c value r.mode.binary with
        | error e => exact h
        | ok bytes => exact ih _ ⟨h.kept, h.mode, fun hno => absurd hwritable hno⟩
    have hrun : Triple (SameFile r₀) (do ReferenceFile.writeEach c values; return true)
        (fun _ => SameFile r₀) (SameFile r₀) := (heach values).bind fun _ => .pure fun _ h => h
    unfold ReferenceFile.writeValues
    rw [if_neg (h.mode ▸ hwritable)]
    exact hrun r h
  · unfold ReferenceFile.writeValues
    rw [if_pos (h.mode ▸ not_not.1 hwritable)]
    exact h

end

/-! ## Flushes without failures -/

/-- The books of a handle and its file fit together. -/
def Fits (observed : Observed) (h : ManagedIoFileState × FilePlace) : Prop :=
  ∃ old, Booked h.1 old ∧ (h.1.mode.PublishesWhole → Known observed h.1 old h.2)

section
variable {observed : Observed} {s s' : ManagedIoFileState} {p : FilePlace}

theorem mode_cases (m : ManagedIoOpenMode) : m.PublishesWhole ∨ m.AppendOnly ∨ ¬ Writable m := by
  obtain ⟨kind, binary, update⟩ := m
  cases update with
  | true => exact .inl (.inl rfl)
  | false =>
    cases kind with
    | read => exact .inr (.inr fun h => h ⟨rfl, rfl⟩)
    | write => exact .inl (.inr rfl)
    | append => exact .inr (.inl ⟨rfl, rfl⟩)

theorem ManagedIoOpenMode.AppendOnly.not_whole {m : ManagedIoOpenMode} (h : m.AppendOnly) :
    ¬ m.PublishesWhole := by
  rintro (hupdate | hkind)
  · rw [h.1] at hupdate
    cases hupdate
  · rw [h.2] at hkind
    cases hkind

theorem not_whole_of_not_writable (h : ¬ Writable m) : ¬ m.PublishesWhole := by
  obtain ⟨hread, hmode⟩ := not_not.1 h
  rintro (hupdate | hkind)
  · rw [hmode] at hupdate
    cases hupdate
  · rw [hread] at hkind
    cases hkind

theorem Fits.steady (h : Fits observed (s, p)) (hsteady : Steady s s') : Fits observed (s', p) := by
  obtain ⟨old, hbooked, hknown⟩ := h
  have hfingerprint : s'.flushedFingerprint = s.flushedFingerprint := by rw [hsteady.frame]
  have hmode : s'.mode = s.mode := by rw [hsteady.frame]
  refine ⟨old, hsteady.booked old hbooked, fun hwhole => ?_⟩
  obtain ⟨hdated, hbytes⟩ := hknown (hmode ▸ hwhole)
  refine ⟨hdated, ?_⟩
  simp only [hfingerprint]
  exact hbytes

theorem Fits.start (h : Fits observed (s, p)) (hmode : s.mode.update = false) :
    s.flushedLen ≤ s.buffer.length := by
  obtain ⟨old, hbooked, -⟩ := h
  refine (hbooked.inside s.flushedLen s.buffer.length ?_).1
  rw [pendingRange, hmode]
  rfl

/-- What a flush does when no call fails. -/
structure CalmFlush (observed : Observed) (s : ManagedIoFileState) (p : FilePlace)
    (s' : ManagedIoFileState) (p' : FilePlace) : Prop where
  fits : Fits observed (s', p')
  frame : s' = { s with
    flushedLen := s'.flushedLen
    flushInitialized := s'.flushInitialized
    flushedFingerprint := s'.flushedFingerprint
    dirtyRange := s'.dirtyRange }
  whole : s.mode.PublishesWhole → p'.bytes = some s.buffer
  appended : s.mode.AppendOnly →
    p'.bytes.getD [] = p.bytes.getD [] ++ s.buffer.drop s.flushedLen ∧ s'.flushedLen = s.buffer.length
  readOnly : ¬ Writable s.mode → p' = p

theorem flushState_calm (h : Fits observed (s, p)) : ∃ s' w',
    flushState observed s ⟨p, []⟩ = .ok s' w' ∧ CalmFlush observed s p s' w'.place := by
  rcases mode_cases s.mode with hwhole | happend | hread
  · obtain ⟨old, hbooked, hknown⟩ := h
    have hrun := triple_flushState (A := False) hbooked (hknown hwhole) hwhole ⟨p, []⟩
      ⟨rfl, fun hne => hne rfl⟩
    cases hflush : flushState observed s ⟨p, []⟩ with
    | error e w =>
      rw [hflush] at hrun
      exact hrun.1.elim
    | ok s' w =>
      rw [hflush] at hrun
      have hpublished := hrun.place
      refine ⟨s', w, rfl, ⟨s.buffer, hpublished.booked, fun _ => ⟨hpublished.dated, fun f hf _ => ?_⟩⟩,
        hpublished.frame, fun _ => hpublished.holds, fun happend => ?_, fun hno => ?_⟩
      · have hbytes : w.place.bytes = some f.bytes :=
          congrArg (Option.map fun g : StoredFile => g.bytes) hf
        exact Option.some.inj (hbytes.symm.trans hpublished.holds)
      · exact absurd hwhole happend.not_whole
      · exact absurd hwhole (not_whole_of_not_writable hno)
  · have hstart := h.start happend.1
    have hrun := flushAppendState_run p [] hstart
    have hstate : flushState observed s = flushAppendState s := by
      rw [flushState, happend.1, happend.2]
      rfl
    have hcalm : ∃ s' w, flushAppendState s ⟨p, []⟩ = .ok s' w := by
      unfold flushAppendState
      rw [if_neg (Nat.not_lt.2 hstart)]
      by_cases hnil : s.buffer.drop s.flushedLen = []
      · rw [if_pos hnil]
        exact ⟨_, _, rfl⟩
      · rw [if_neg hnil]
        exact ⟨_, _, rfl⟩
    obtain ⟨s', w, hflush⟩ := hcalm
    rw [hflush] at hrun
    obtain ⟨rfl, hbytes⟩ := hrun
    obtain ⟨old, hbooked, -⟩ := h
    refine ⟨{ s with flushedLen := s.buffer.length }, w, hstate ▸ hflush,
      ⟨s.buffer, ⟨hbooked.cursor, ?_, ?_, fun _ => rfl⟩, fun hwhole => ?_⟩, rfl, fun hwhole => ?_, fun _ => ⟨hbytes, rfl⟩, fun hno => ?_⟩
    · intro a b hab
      unfold pendingRange at hab
      rw [if_neg (by rw [happend.1]; rintro ⟨⟩)] at hab
      cases hab
      exact ⟨Nat.le_refl _, Nat.le_refl _⟩
    · exact fun _ _ _ => .refl
    · exact absurd hwhole happend.not_whole
    · exact absurd hwhole happend.not_whole
    · exact absurd happend.2 (by rw [(not_not.1 hno).1]; rintro ⟨⟩)
  · obtain ⟨hkind, hmode⟩ := not_not.1 hread
    refine ⟨s, ⟨p, []⟩, ?_, h, rfl, fun hwhole => ?_, fun happend => ?_, fun _ => rfl⟩
    · rw [flushState, hmode, hkind]
      rfl
    · exact absurd hwhole (not_whole_of_not_writable hread)
    · exact absurd happend.2 (by rw [hkind]; rintro ⟨⟩)

end

/-- The handle matches the reference file, and its file holds what is published of it. -/
structure Linked (observed : Observed) (h : ManagedIoFileState × FilePlace) (r : ReferenceFile) : Prop where
  state : Matches h.1 r
  stays : h.1.deleteOnClose = false
  fits : Fits observed h
  kept : ¬ r.mode.AppendOnly → r.kept = []
  appended : r.mode.AppendOnly → h.2.bytes.getD [] = r.kept ++ h.1.buffer.take h.1.flushedLen
  readOnly : ¬ Writable r.mode → h.2.bytes = some r.bytes

section
variable {observed : Observed} {c : TextCodec} {s : ManagedIoFileState} {p : FilePlace} {r : ReferenceFile}

theorem agree_besideFile {α : Type} {x : HandleProg α} {y : EStateM Stop ReferenceFile α}
    (h : Linked observed (s, p) r) (hagree : Agree Matches x y s r) (hx : KeepsSteady x)
    (hy : KeepsFile y) : Agree (Linked observed) (besideFile x) y (s, p) r := by
  have hsteady := hx.final s
  have hsame : SameFile r (y.final r) := Triple.final (hy r) ⟨rfl, rfl, fun _ => rfl⟩
  have hlinked : Linked observed (x.final s, p) (y.final r) := by
    refine ⟨hagree.related, ?_, h.fits.steady hsteady, ?_, ?_, ?_⟩
    · simp only
      rw [hsteady.frame]
      exact h.stays
    · rw [hsame.mode, hsame.kept]
      exact h.kept
    · rw [hsame.mode, hsame.kept]
      intro happend
      have hmode : s.mode.update = false := h.state.mode ▸ happend.1
      have hlen : (x.final s).flushedLen = s.flushedLen := by rw [hsteady.frame]
      obtain ⟨more, hmore⟩ := hsteady.grows hmode
      refine (h.appended happend).trans ?_
      simp only [hlen, ← hmore]
      rw [take_append_of_le_length (h.fits.start hmode)]
    · rw [hsame.mode]
      intro hno
      rw [hsame.bytes hno]
      exact h.readOnly hno
  constructor
  · rw [← hagree.outcome]
    unfold EStateM.outcome besideFile
    cases hrun : x s <;> simp only [hrun]
  · have hfinal : (besideFile x).final (s, p) = (x.final s, p) := by
      unfold EStateM.final besideFile
      cases hrun : x s <;> simp only [hrun]
    rw [hfinal]
    exact hlinked

/-- After a flush the file holds the bytes of the reference file. -/
theorem Linked.flush (h : Linked observed (s, p) r) : ∃ s' w',
    flushState observed s ⟨p, []⟩ = .ok s' w' ∧ Linked observed (s', w'.place) r ∧
      w'.place.bytes.getD [] = r.content := by
  obtain ⟨s', w', hflush, hcalm⟩ := flushState_calm h.fits
  have hstate := h.state
  have hmode : s'.mode = s.mode := by rw [hcalm.frame]
  have hbuffer : s'.buffer = s.buffer := by rw [hcalm.frame]
  have hcontent : w'.place.bytes.getD [] = r.content := by
    rw [ReferenceFile.content]
    rcases mode_cases s.mode with hwhole | happend | hread
    · rw [hcalm.whole hwhole, h.kept fun happend => absurd hwhole (hstate.mode ▸ happend.not_whole),
        hstate.buffer]
      rfl
    · rw [(hcalm.appended happend).1, h.appended (hstate.mode ▸ happend), append_assoc,
        take_append_drop, hstate.buffer]
    · rw [hcalm.readOnly hread, h.readOnly (hstate.mode ▸ hread), h.kept fun happend => ?_]
      · rfl
      · exact absurd happend.2 (by rw [← hstate.mode, (not_not.1 hread).1]; nofun)
  refine ⟨s', w', hflush, ⟨?_, ?_, hcalm.fits, h.kept, fun happend => ?_, fun hread => ?_⟩, hcontent⟩
  · rw [hcalm.frame]
    exact ⟨hstate.opened, hstate.binary, hstate.mode, hstate.buffer, hstate.cursor, hstate.bounded⟩
  · simp only
    rw [hcalm.frame]
    exact h.stays
  · simp only [hcontent, ReferenceFile.content, hbuffer, (hcalm.appended (hstate.mode ▸ happend)).2]
    rw [take_length, hstate.buffer]
  · simp only [hcalm.readOnly (hstate.mode ▸ hread)]
    exact h.readOnly hread

/-- A write of a handle for writing alone starts where its buffer ends. -/
def Operation.Aimed (c : TextCodec) : Operation → ManagedIoFileState × FilePlace → Prop
  | .write values, (s, _) => ManagedIo.Aimed s ∨ WritesNothing c s values
  | _, _ => True

theorem agree_perform {op : Operation} (h : Linked observed (s, p) r) (haimed : op.Aimed c (s, p)) :
    Agree (Linked observed) (op.perform observed c) (op.refer c) (s, p) r := by
  cases op with
  | read formats =>
    apply agree_besideFile h
    · exact (simulates_readValues s r h.state).bind fun _ _ _ _ h' => .pure h'
    · exact .bind keepsSteady_readValues fun _ => .pure
    · exact .bind keepsFile_readValues fun _ => .pure
  | write values =>
    apply agree_besideFile h
    · exact (agree_writeValues h.state haimed).bind fun _ _ _ _ h' => .pure h'
    · exact .bind keepsSteady_writeValues fun _ => .pure
    · exact .bind keepsFile_writeValues fun _ => .pure
  | seek whence offset =>
    apply agree_besideFile h
    · exact (simulates_seek s r h.state).bind fun _ _ _ _ h' => .pure h'
    · exact .bind keepsSteady_seek fun _ => .pure
    · exact .bind keepsFile_seek fun _ => .pure
  | flush =>
    obtain ⟨s', w', hflush, hlinked, -⟩ := h.flush
    refine .of_ok (a := .flag true) ?_ rfl hlinked
    have hopen : s.ensureFileIsOpen "file:flush" = .ok () := by
      rw [ensureFileIsOpen, h.state.opened]
      rfl
    simp only [Operation.perform, flush, hopen, hflush]

theorem Linked.close (h : Linked observed (s, p) r) : ∃ b s' w',
    close observed (s, ⟨p, []⟩) = .ok b (s', w') ∧ w'.place.bytes.getD [] = r.content := by
  obtain ⟨s', w', hflush, hlinked, hcontent⟩ := h.flush
  have hremove : removeTemporary s' w' = .ok () w' := by
    rw [removeTemporary, hlinked.stays]
    rfl
  have hopen : s.closed = false := h.state.opened
  simp only [ManagedIo.close, hopen, Bool.false_eq_true, if_false, hflush, hremove]
  exact ⟨_, _, _, rfl, hcontent⟩

end

/-! ## Slices -/

/-- The program does not slice out of bounds. -/
def NoPanic {σ α : Type} (x : EStateM Stop σ α) (s : σ) : Prop := x.outcome s ≠ .error .panic

section
variable {σ α β : Type} {c : TextCodec} {observed : Observed} {s : ManagedIoFileState} {p : FilePlace}

theorem NoPanic.of_outcome {τ : Type} {x : EStateM Stop σ α} {y : EStateM Stop τ α} {t : σ} {u : τ}
    (h : x.outcome t = y.outcome u) (hy : NoPanic y u) : NoPanic x t := by
  unfold NoPanic
  rw [h]
  exact hy

theorem NoPanic.bind {x : EStateM Stop σ α} {f : α → EStateM Stop σ β} {t : σ} (h : NoPanic x t)
    (hf : ∀ a t, NoPanic (f a) t) : NoPanic (x >>= f) t := by
  unfold NoPanic EStateM.outcome at *
  cases hx : x t with
  | ok a t' =>
    rw [bind_of_ok hx]
    exact hf a t'
  | error e t' =>
    rw [hx] at h
    rw [bind_of_error hx]
    exact fun heq => h (congrArg _ (error.inj heq))

theorem noPanic_answer (r : ReferenceFile) :
    NoPanic (ReferenceFile.answer request) r := by
  unfold NoPanic EStateM.outcome ReferenceFile.answer
  split <;> rename_i hrun <;> split at hrun <;> cases hrun <;> nofun

theorem noPanic_readOne (r : ReferenceFile) :
    NoPanic (ReferenceFile.readOne format) r := by
  have hthrow : ∀ message, NoPanic (throw (.runtime message) : EStateM Stop ReferenceFile LuaValue) r :=
    fun _ => nofun
  unfold ReferenceFile.readOne
  cases format with
  | nil => exact noPanic_answer r
  | boolean b | other name => exact hthrow _
  | integer n =>
    cases n with
    | ofNat size => exact noPanic_answer r
    | negSucc n => exact hthrow _
  | number size text =>
    cases size with
    | none => exact hthrow _
    | some size => exact noPanic_answer r
  | string text =>
    simp only [readRequest]
    cases toStr text with
    | none => exact hthrow _
    | some format =>
      by_cases hall : format = "*a" ∨ format = "a"
      · simp only [if_pos hall]
        exact noPanic_answer r
      · by_cases hline : format = "*l" ∨ format = "l"
        · simp only [if_neg hall, if_pos hline]
          exact noPanic_answer r
        · simp only [if_neg hall, if_neg hline]
          exact hthrow _

theorem noPanic_readValues (r : ReferenceFile) :
    NoPanic (ReferenceFile.readValues formats) r := by
  have heach : ∀ formats r, NoPanic (ReferenceFile.readEach formats) r := by
    intro formats
    induction formats with
    | nil => exact fun r => nofun
    | cons format formats ih =>
      exact fun r => (noPanic_readOne r).bind fun _ r => (ih r).bind fun _ _ => nofun
  unfold ReferenceFile.readValues
  split
  · exact (noPanic_answer r).bind fun _ _ => nofun
  · exact heach formats r

theorem noPanic_seek (r : ReferenceFile) :
    NoPanic (ReferenceFile.seek whence offset) r := by
  have haim : r.aim whence offset ≠ .error .panic := by
    have hchecks : ∀ n : Int, (if n < -2 ^ 63 ∨ 2 ^ 63 ≤ n then
          error (.runtime "file:seek offset overflow")
        else if n < 0 then .error (.runtime "file:seek offset before start") else .ok n.toNat) ≠
          error Stop.panic := by
      intro n
      split
      · rintro ⟨⟩
      · split <;> rintro ⟨⟩
    unfold ReferenceFile.aim
    split
    next => exact hchecks _
    next => exact hchecks _
    next => exact hchecks _
    next => rintro ⟨⟩
  unfold NoPanic EStateM.outcome ReferenceFile.seek
  cases hrun : r.aim whence offset with
  | error e =>
    rw [hrun] at haim
    exact fun h => haim (congrArg _ (error.inj h))
  | ok n => rintro ⟨⟩

theorem luaValueToOutputBytes_ne_panic : luaValueToOutputBytes c value binary ≠ .error .panic := by
  have hencode : ∀ text, ((c.encode text).mapError fun e => Stop.runtime ("file:write: " ++ e)) ≠
      .error .panic := by
    intro text
    cases c.encode text <;> nofun
  cases value with
  | nil => nofun
  | other name => nofun
  | boolean b | integer n | number size text => exact hencode _
  | string bytes =>
    simp only [luaValueToOutputBytes]
    split
    · nofun
    · cases toStr bytes with
      | none => nofun
      | some text => exact hencode _

theorem noPanic_writeValues (s : ManagedIoFileState) :
    NoPanic (writeValues c values) s := by
  have heach : ∀ values s, NoPanic (writeEach c values) s := by
    intro values
    induction values with
    | nil => exact fun s => by rintro ⟨⟩
    | cons value values ih =>
      intro s
      have hconverted : luaValueToOutputBytes c value s.mode.binary ≠ .error .panic :=
        luaValueToOutputBytes_ne_panic
      unfold NoPanic EStateM.outcome writeEach
      cases hbytes : luaValueToOutputBytes c value s.mode.binary with
      | error e =>
        rw [hbytes] at hconverted
        exact fun h => hconverted (congrArg _ (error.inj h))
      | ok bytes => exact ih _
  have hcheck : NoPanic (checked checkWrite fun s => .ok ((), s)) s := by
    unfold NoPanic EStateM.outcome checked
    cases hrefused : checkWrite s with
    | ok u => rintro ⟨⟩
    | error e =>
      rcases bind_eq_error.1 hrefused with h | ⟨-, -, h⟩
      · cases (refuseIf_eq_error.1 h).2
        rintro ⟨⟩
      · cases (refuseIf_eq_error.1 h).2
        rintro ⟨⟩
  exact hcheck.bind fun _ s => (heach values s).bind fun _ _ => by rintro ⟨⟩

/-- What every operation keeps, also when a write is not where the reference writes. -/
structure Bounded (observed : Observed) (h : ManagedIoFileState × FilePlace) : Prop where
  opened : h.1.closed = false
  binary : h.1.mode.binary = true
  fits : Fits observed h

/-- The reference file that a handle looks like. -/
def lookAlike (s : ManagedIoFileState) : ReferenceFile := ⟨s.mode, [], s.buffer, s.cursor⟩

theorem Bounded.alike (h : Bounded observed (s, p)) : Matches s (lookAlike s) := by
  obtain ⟨old, hbooked, -⟩ := h.fits
  exact ⟨h.opened, h.binary, rfl, rfl, rfl, hbooked.cursor⟩

theorem Bounded.besideFile (h : Bounded observed (s, p)) {x : HandleProg α} (hx : KeepsSteady x)
    (hpanic : NoPanic x s) :
    Bounded observed ((besideFile x).final (s, p)) ∧ NoPanic (besideFile x) (s, p) := by
  have hsteady := hx.final s
  have hfinal : (ManagedIo.besideFile x).final (s, p) = (x.final s, p) := by
    unfold EStateM.final ManagedIo.besideFile
    cases hrun : x s <;> simp only [hrun]
  have houtcome : (ManagedIo.besideFile x).outcome (s, p) = x.outcome s := by
    unfold EStateM.outcome ManagedIo.besideFile
    cases hrun : x s <;> simp only [hrun]
  refine ⟨?_, hpanic.of_outcome houtcome⟩
  rw [hfinal]
  refine ⟨?_, ?_, h.fits.steady hsteady⟩
  · simp only
    rw [hsteady.frame]
    exact h.opened
  · simp only
    rw [hsteady.frame]
    exact h.binary

theorem Bounded.perform (h : Bounded observed (s, p)) (op : Operation) :
    Bounded observed ((op.perform observed c).final (s, p)) ∧ NoPanic (op.perform observed c) (s, p) := by
  cases op with
  | read formats =>
    apply h.besideFile
    · exact .bind keepsSteady_readValues fun _ => .pure
    · exact ((noPanic_readValues _).of_outcome (simulates_readValues s _ h.alike).outcome).bind
        fun _ _ => by rintro ⟨⟩
  | write values =>
    apply h.besideFile
    · exact .bind keepsSteady_writeValues fun _ => .pure
    · exact (noPanic_writeValues s).bind fun _ _ => by rintro ⟨⟩
  | seek whence offset =>
    apply h.besideFile
    · exact .bind keepsSteady_seek fun _ => .pure
    · exact ((noPanic_seek _).of_outcome (simulates_seek s _ h.alike).outcome).bind fun _ _ => by rintro ⟨⟩
  | flush =>
    obtain ⟨s', w', hflush, hcalm⟩ := flushState_calm h.fits
    have hopen : s.ensureFileIsOpen "file:flush" = .ok () := by
      rw [ensureFileIsOpen, h.opened]
      rfl
    have hrun : Operation.flush.perform observed c (s, p) = .ok (.flag true) (s', w'.place) := by
      simp only [Operation.perform, flush, hopen, hflush]
    unfold NoPanic EStateM.outcome EStateM.final
    rw [hrun]
    refine ⟨⟨?_, ?_, hcalm.fits⟩, by rintro ⟨⟩⟩
    · simp only
      rw [hcalm.frame]
      exact h.opened
    · simp only
      rw [hcalm.frame]
      exact h.binary

end

/-! ## Runs -/

section
variable {observed : Observed} {c : TextCodec} {mode : ManagedIoOpenMode} {file : Option (List UInt8)}
  {handle : ManagedIoFileState} {w : PathWorld}

/-- The outcomes of the operations and the position are those of the reference file, and after the close
the file holds its bytes. -/
structure RunsAsReference (observed : Observed) (c : TextCodec) (ops : List Operation)
    (h : ManagedIoFileState × FilePlace) (r : ReferenceFile) : Prop where
  outcomes : (trace (Operation.perform observed c) ops h).1 = (trace (Operation.refer c) ops r).1
  position : (trace (Operation.perform observed c) ops h).2.1.cursor =
    (trace (Operation.refer c) ops r).2.position
  content : ∃ b s' w', close observed ((trace (Operation.perform observed c) ops h).2.1,
      ⟨(trace (Operation.perform observed c) ops h).2.2, []⟩) = .ok b (s', w') ∧
    w'.place.bytes.getD [] = (trace (Operation.refer c) ops r).2.content

theorem open_buffer (hopen : ManagedIoFileState.open observed mode ⟨.start file, []⟩ = .ok handle w) :
    handle.buffer = (ReferenceFile.opened mode file).bytes ∧ (¬ Writable mode → ∃ b, file = some b) := by
  obtain ⟨kind, binary, update⟩ := mode
  cases kind <;> cases update <;> cases file <;>
    simp [ManagedIoFileState.open, failing, EStateM.adaptExcept, readManagedIoUpdateBuffer, PathProg.look,
      PathProg.perform, PathProg.ifPresent, bind, EStateM.bind, pure, EStateM.pure, FilePlace.start,
      ReferenceFile.opened, Writable] at hopen ⊢
  all_goals
    obtain ⟨rfl, -⟩ := hopen
    rfl

theorem linked_opened (hbinary : mode.binary = true)
    (hopen : ManagedIoFileState.open observed mode ⟨.start file, []⟩ = .ok handle w) :
    Linked observed (handle, w.place) (.opened mode file) := by
  obtain ⟨hbuffer, hpresent⟩ := open_buffer hopen
  have hjust := Triple.ok triple_open ⟨rfl, fun _ => trivial⟩ hopen
  obtain ⟨hplace, hjust⟩ := hjust.place
  have hsound := hjust.sound FilePlace.dated_start
  obtain ⟨bytes, initialized, fingerprint, rfl, hshown, hempty⟩ := hjust
  have hfile : (FilePlace.start file).bytes = file := by cases file <;> rfl
  refine ⟨⟨rfl, hbinary, rfl, hbuffer, rfl, Nat.zero_le _⟩, rfl,
    ⟨bytes, hsound.booked, fun _ => ?_⟩, ?_, ?_, ?_⟩
  · refine ⟨hplace ▸ FilePlace.dated_start, fun f hf hsome => ?_⟩
    obtain ⟨f', hf', hbytes, -⟩ := hshown _ hsome
    rw [hplace] at hf
    rw [Option.some.inj (hf.symm.trans hf'), hbytes]
  · intro hno
    exact if_neg fun happend => hno ⟨happend.2, happend.1⟩
  · intro happend
    have hkept : (ReferenceFile.opened mode file).kept = file.getD [] := if_pos ⟨happend.2, happend.1⟩
    rw [hkept]
    simp only [hplace, hfile, hempty happend, openedState, take_nil, append_nil]
  · intro hread
    obtain ⟨b, rfl⟩ := hpresent hread
    have hkind : mode.kind = .read := (not_not.1 hread).1
    have hbytes : (ReferenceFile.opened mode (some b)).bytes = b := by
      refine if_neg ?_
      rw [hkind]
      nofun
    rw [hbytes]
    simp only [hplace, hfile]

theorem parseOpenMode_binary (hmode : parseOpenMode text = .ok mode) (hb : 'b' ∈ text.toList) :
    mode.binary = true := by
  have hcontains : text.toList.contains 'b' = true := contains_iff_mem.2 hb
  simp only [parseOpenMode, hcontains] at hmode
  split at hmode
  · cases hmode
    rfl
  · split at hmode
    · cases hmode
      rfl
    · split at hmode <;> cases hmode
      rfl

/-- Every run of a handle in binary form slices within its buffer, and it is that of the reference file if
each write of a handle for writing alone starts where its buffer ends. -/
theorem runs_as_reference (observed : Observed) (c : TextCodec) (text : String) (mode : ManagedIoOpenMode)
    (hmode : parseOpenMode text = .ok mode) (hb : 'b' ∈ text.toList) (file : Option (List UInt8))
    (handle : ManagedIoFileState) (w : PathWorld)
    (hopen : ManagedIoFileState.open observed mode ⟨.start file, []⟩ = .ok handle w)
    (ops : List Operation) :
    ((trace (Operation.perform observed c) ops (handle, w.place)).2.1.cursor ≤
        (trace (Operation.perform observed c) ops (handle, w.place)).2.1.buffer.length ∧
      ∀ o ∈ (trace (Operation.perform observed c) ops (handle, w.place)).1, o ≠ .error .panic) ∧
    (Along (Operation.perform observed c) (Operation.Aimed c) ops (handle, w.place) →
      RunsAsReference observed c ops (handle, w.place) (.opened mode file)) := by
  have hlinked := linked_opened (parseOpenMode_binary hmode hb) hopen
  constructor
  · have hbounded : Bounded observed (handle, w.place) :=
      ⟨hlinked.state.opened, hlinked.state.binary, hlinked.fits⟩
    obtain ⟨hlast, hall⟩ := trace_invariant (I := Bounded observed)
      (G := fun o => o ≠ .error Stop.panic) (fun op ⟨s, p⟩ hh => hh.perform op) hbounded
    obtain ⟨old, hbooked, -⟩ := hlast.fits
    exact ⟨hbooked.cursor, hall⟩
  · intro haimed
    obtain ⟨houtcomes, hlast⟩ := trace_agree (fun op ⟨s, p⟩ r hh ha => agree_perform hh ha) hlinked haimed
    exact ⟨houtcomes, hlast.state.cursor, hlast.close⟩

end

/-! ## A rewound file -/

namespace Example

def writeMode : ManagedIoOpenMode := ⟨.write, true, false⟩

/-- A handle for writing alone that writes, seeks to where it is and writes again. -/
def written : List Operation :=
  [.write [.string [97, 98]], .flush, .seek (some "end") none, .write [.string [99]]]

theorem runs_as_reference_written : RunsAsReference countingHost plainCodec written
    (openedState writeMode [] false none, .start none) (.opened writeMode none) := by
  refine (runs_as_reference countingHost plainCodec "wb" writeMode (by decide) (by decide) none _
    ⟨.start none, []⟩ rfl written).2 ?_
  exact ⟨.inl fun _ _ => rfl, trivial, trivial, .inl fun _ _ => rfl, trivial⟩

/-- After a seek to the start, which reports it, the next byte is not written there. -/
theorem not_runs_as_reference_rewound :
    ManagedIoFileState.open countingHost writeMode ⟨.start none, []⟩ =
      .ok (openedState writeMode [] false none) ⟨.start none, []⟩ ∧
    ¬ RunsAsReference countingHost plainCodec
      [.write [.string [97, 98]], .seek (some "set") (some 0), .write [.string [99]]]
      (openedState writeMode [] false none, .start none) (.opened writeMode none) := by
  refine ⟨rfl, fun h => ?_⟩
  have hposition := h.position
  revert hposition
  decide

end Example

end LuaSkills.ManagedIo
