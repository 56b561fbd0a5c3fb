import Mathlib.Algebra.Group.Int.Defs
import LuaSkills.Data.Fallible
import LuaSkills.Data.GenerationFile

/-!
# Managed file handles

A handle of `vulcan.io.open` keeps the bytes of its file in a buffer: reads and writes work on the buffer
from a cursor, and a flush publishes what the backing file does not have yet. An append-only handle
buffers only the bytes that it writes itself.
-/

namespace LuaSkills.ManagedIo

inductive ManagedIoModeKind where
  | read
  | write
  | append
deriving DecidableEq

structure ManagedIoOpenMode where
  kind : ManagedIoModeKind
  binary : Bool
  update : Bool
deriving DecidableEq

structure ManagedIoPlatformGeneration where
  storageId : ℕ
  fileId : ℕ
  changeTime : Int
  changeTimeSubsecond : Int
deriving DecidableEq

structure ManagedIoBackingFingerprint where
  len : ℕ
  modified : Option ℕ
  created : Option ℕ
  platformGeneration : Option ManagedIoPlatformGeneration
deriving DecidableEq

structure ManagedIoFileState where
  mode : ManagedIoOpenMode
  buffer : List UInt8
  cursor : ℕ
  flushedLen : ℕ
  flushInitialized : Bool
  flushedFingerprint : Option ManagedIoBackingFingerprint
  dirtyRange : Option (ℕ × ℕ)
  closed : Bool
  deleteOnClose : Bool
  closeStatus : Option Bool
deriving DecidableEq

/-- How an operation ends that does not return: a runtime error, the error of a dirty range that does not
fit the buffer, or a slice out of bounds. -/
inductive Stop where
  | runtime (message : String)
  | dirtyRangeOutside
  | panic
deriving DecidableEq

/-- The values that scripts pass and get. A number comes with the size it stands for, if it is whole and
not negative, and with its text. -/
inductive LuaValue where
  | nil
  | boolean (b : Bool)
  | integer (n : Int)
  | number (size : Option ℕ) (text : String)
  | string (bytes : List UInt8)
  | other (typeName : String)
deriving DecidableEq

/-- The text encoding of a handle: `decode_runtime_text` and `encode_runtime_text`. -/
structure TextCodec where
  decode : List UInt8 → List UInt8
  encode : String → Except String (List UInt8)

abbrev HandleProg := EStateM Stop ManagedIoFileState

def parseOpenMode (mode : String) : Except Stop ManagedIoOpenMode := do
  let binary := mode.toList.contains 'b'
  let update := mode.toList.contains '+'
  let normalized := mode.toList.filter fun c => c ≠ 'b' ∧ c ≠ '+'
  let kind ←
    if normalized = ['r'] ∨ normalized = [] then .ok .read
    else if normalized = ['w'] then .ok .write
    else if normalized = ['a'] then .ok .append
    else .error (.runtime ("vulcan.io.open: unsupported mode `" ++ mode ++ "`"))
  return ⟨kind, binary, update⟩

/-! ## Opening -/

/-- A call whose failure becomes the runtime error of `operation`. -/
def failing {α : Type} (operation : String) (x : PathProg α) : EStateM Stop PathWorld α :=
  EStateM.adaptExcept
    (fun
      | .notFound => .runtime (operation ++ ": not found")
      | .other e => .runtime (operation ++ ": " ++ e))
    x

/-- What metadata a file shows: its fingerprint. -/
abbrev Observed := StoredFile → ManagedIoBackingFingerprint

def readManagedIoUpdateBuffer (observed : Observed) :
    PathProg (List UInt8 × ManagedIoBackingFingerprint) := do
  PathProg.openExisting
  let before ← PathProg.observe observed
  let buffer ← PathProg.readToEnd
  let after ← PathProg.observe observed
  if before ≠ after then throw (.other "managed file changed while opening")
  else return (buffer, after)

def openedState (mode : ManagedIoOpenMode) (buffer : List UInt8) (flushInitialized : Bool)
    (flushedFingerprint : Option ManagedIoBackingFingerprint) : ManagedIoFileState where
  mode := mode
  buffer := buffer
  cursor := 0
  flushedLen := buffer.length
  flushInitialized := flushInitialized
  flushedFingerprint := flushedFingerprint
  dirtyRange := none
  closed := false
  deleteOnClose := false
  closeStatus := none

def ManagedIoFileState.open (observed : Observed) (mode : ManagedIoOpenMode) :
    EStateM Stop PathWorld ManagedIoFileState :=
  match mode.kind, mode.update with
  | .read, true => do
    let (bytes, fingerprint) ← failing "vulcan.io.open" (readManagedIoUpdateBuffer observed)
    return openedState mode bytes true (some fingerprint)
  | .read, false => do
    let bytes ← failing "vulcan.io.open" PathProg.readToEnd
    return openedState mode bytes true none
  | .append, true => do
    match ← failing "vulcan.io.open" (PathProg.ifPresent (readManagedIoUpdateBuffer observed)) with
    | some (bytes, fingerprint) => return openedState mode bytes true (some fingerprint)
    | none => return openedState mode [] false none
  | .write, _ => return openedState mode [] false none
  | .append, false => return openedState mode [] true none

namespace ManagedIoFileState

/-! ## Reading -/

def ensureFileIsOpen (s : ManagedIoFileState) (operation : String) : Except Stop Unit :=
  refuseIf s.closed (.runtime (operation ++ ": file is already closed"))

def ensureFileIsReadable (s : ManagedIoFileState) (operation : String) : Except Stop Unit :=
  refuseIf (s.mode.kind ≠ .read ∧ ¬ s.mode.update)
    (.runtime (operation ++ ": file is not opened for reading"))

def ensureFileIsWritable (s : ManagedIoFileState) (operation : String) : Except Stop Unit :=
  refuseIf (s.mode.kind = .read ∧ ¬ s.mode.update)
    (.runtime (operation ++ ": file is not opened for writing"))

end ManagedIoFileState

open ManagedIoFileState

def bytesToLuaValue (c : TextCodec) (bytes : List UInt8) (binary : Bool) : LuaValue :=
  if binary then .string bytes else .string (c.decode bytes)

def checked {α : Type} (check : ManagedIoFileState → Except Stop Unit)
    (op : ManagedIoFileState → Except Stop (α × ManagedIoFileState)) : HandleProg α := fun s =>
  match check s with
  | .error e => .error e s
  | .ok () =>
    match op s with
    | .ok (a, s') => .ok a s'
    | .error e => .error e s

def checkRead (s : ManagedIoFileState) : Except Stop Unit := do
  s.ensureFileIsOpen "file:read"
  s.ensureFileIsReadable "file:read"

/-- `buffer[start..end]`, which panics out of bounds. -/
def slice (buffer : List UInt8) (start stop : ℕ) : Except Stop (List UInt8) :=
  if start ≤ stop ∧ stop ≤ buffer.length then .ok (buffer.extract start stop) else .error .panic

def readAll (c : TextCodec) : HandleProg LuaValue :=
  checked checkRead fun s => do
    let bytes ← slice s.buffer s.cursor s.buffer.length
    return (bytesToLuaValue c bytes s.mode.binary, { s with cursor := s.buffer.length })

def lineFeed : UInt8 := 10

def carriageReturn : UInt8 := 13

def readOneLine (c : TextCodec) : HandleProg LuaValue :=
  checked checkRead fun s =>
    if s.cursor ≥ s.buffer.length then .ok (.nil, s)
    else do
      let remaining ← slice s.buffer s.cursor s.buffer.length
      let lineEnd := (remaining.findIdx? (· == lineFeed)).getD remaining.length
      let next := s.cursor + lineEnd
      let line ← slice s.buffer s.cursor next
      let line := if line.getLast? = some carriageReturn then line.dropLast else line
      let next := if s.buffer[next]? = some lineFeed then next + 1 else next
      return (bytesToLuaValue c line s.mode.binary, { s with cursor := next })

def readByteCount (c : TextCodec) (size : ℕ) : HandleProg LuaValue :=
  checked checkRead fun s =>
    if size = 0 then .ok (bytesToLuaValue c [] s.mode.binary, s)
    else if s.cursor ≥ s.buffer.length then .ok (.nil, s)
    else do
      let stop := min (s.cursor + size) s.buffer.length
      let bytes ← slice s.buffer s.cursor stop
      return (bytesToLuaValue c bytes s.mode.binary, { s with cursor := stop })

def luaValueTypeName : LuaValue → String
  | .nil => "nil"
  | .boolean _ => "boolean"
  | .integer _ | .number .. => "number"
  | .string _ => "string"
  | .other typeName => typeName

/-- The text of a string of the script, if it is UTF-8. -/
def toStr (bytes : List UInt8) : Option String := String.fromUTF8? ⟨bytes.toArray⟩

def readOne (c : TextCodec) : LuaValue → HandleProg LuaValue
  | .nil => readOneLine c
  | .string text =>
    match toStr text with
    | none => throw (.runtime "file:read format must be valid UTF-8")
    | some format =>
      if format = "*a" ∨ format = "a" then readAll c
      else if format = "*l" ∨ format = "l" then readOneLine c
      else throw (.runtime ("file:read unsupported format `" ++ format ++ "`"))
  | .integer (.ofNat size) => readByteCount c size
  | .number (some size) _ => readByteCount c size
  | other => throw (.runtime ("file:read unsupported format argument " ++ luaValueTypeName other))

/-- `file:read`: without a format one line is read. -/
def readEach (c : TextCodec) : List LuaValue → HandleProg (List LuaValue)
  | [] => pure []
  | format :: formats => do
    let value ← readOne c format
    return value :: (← readEach c formats)

def readValues (c : TextCodec) (formats : List LuaValue) : HandleProg (List LuaValue) :=
  if formats = [] then return [← readOneLine c] else readEach c formats

/-! ## Writing and seeking -/

def luaValueToOutputBytes (c : TextCodec) (value : LuaValue) (binary : Bool) :
    Except Stop (List UInt8) :=
  let encode (text : String) : Except Stop (List UInt8) :=
    (c.encode text).mapError fun e => .runtime ("file:write: " ++ e)
  match value with
  | .string bytes =>
    if binary then .ok bytes
    else
      match toStr bytes with
      | none => .error (.runtime "file:write string must be valid UTF-8 in text mode")
      | some text => encode text
  | .integer n => encode (toString n)
  | .number _ text => encode text
  | .boolean b => encode (toString b)
  | other => .error (.runtime ("file:write unsupported value " ++ luaValueTypeName other))

def joinRange (range : Option (ℕ × ℕ)) (start stop : ℕ) : ℕ × ℕ :=
  match range with
  | some (dirtyStart, dirtyEnd) => (min dirtyStart start, max dirtyEnd stop)
  | none => (start, stop)

namespace ManagedIoFileState

/-- Where an update write goes: append modes write at the end. -/
def writePosition (s : ManagedIoFileState) : ℕ :=
  if s.mode.kind = .append then s.buffer.length else s.cursor

def writeBytes (s : ManagedIoFileState) (bytes : List UInt8) : ManagedIoFileState :=
  if s.mode.update then
    let stop := s.writePosition + bytes.length
    { s with
      buffer := s.buffer.overlay 0 s.writePosition bytes
      cursor := stop
      dirtyRange :=
        if s.writePosition < stop then some (joinRange s.dirtyRange s.writePosition stop)
        else s.dirtyRange }
  else
    { s with buffer := s.buffer ++ bytes, cursor := (s.buffer ++ bytes).length }

/-- The position that a seek asks for. -/
def seekTarget (s : ManagedIoFileState) (whence : Option String) (offset : Option Int) :
    Except Stop ℕ := do
  let base : Int ←
    match whence.getD "cur" with
    | "set" => .ok 0
    | "cur" => .ok s.cursor
    | "end" => .ok s.buffer.length
    | other => .error (.runtime ("file:seek unsupported whence `" ++ other ++ "`"))
  let next := base + offset.getD 0
  if next < -2 ^ 63 ∨ 2 ^ 63 ≤ next then .error (.runtime "file:seek offset overflow")
  else if next < 0 then .error (.runtime "file:seek offset before start")
  else .ok next.toNat

end ManagedIoFileState

/-- The bytes of a value go into the buffer before the next value is converted. -/
def writeEach (c : TextCodec) : List LuaValue → HandleProg Unit
  | [] => pure ()
  | value :: values => fun s =>
    match luaValueToOutputBytes c value s.mode.binary with
    | .error e => .error e s
    | .ok bytes => writeEach c values (s.writeBytes bytes)

def checkWrite (s : ManagedIoFileState) : Except Stop Unit := do
  s.ensureFileIsOpen "file:write"
  s.ensureFileIsWritable "file:write"

def writeValues (c : TextCodec) (values : List LuaValue) : HandleProg Bool := do
  checked checkWrite fun s => .ok ((), s)
  writeEach c values
  return true

def seek (whence : Option String) (offset : Option Int) : HandleProg ℕ :=
  checked (·.ensureFileIsOpen "file:seek") fun s => do
    let next ← s.seekTarget whence offset
    return (min next s.buffer.length, { s with cursor := min next s.buffer.length })

end LuaSkills.ManagedIo
