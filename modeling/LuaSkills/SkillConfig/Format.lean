import LuaSkills.Data.Json
import LuaSkills.SkillConfig.Document

/-!
# The configuration file format

A document is printed as a JSON object with its packages in key order and read back by a strict
visitor, which refuses unknown, missing and repeated members at each of its three levels. `Linked`
stands for the linked JSON library and digest. Positions inside parse errors are not kept.
-/

namespace LuaSkills.SkillConfig

/-- Trees a JSON library prints and reads back: integers of 64 bits, nesting at most `depth`. -/
def Printable : ℕ → Json → Prop
  | _, .null | _, .bool _ | _, .string _ => True
  | _, .number (.posInt n) => n < 2 ^ 64
  | _, .number _ => False
  | 0, _ => False
  | depth + 1, .array items => ∀ v ∈ items, Printable depth v
  | depth + 1, .object fields => ∀ e ∈ fields, Printable depth e.2

/-- What the linked crates compute. The parser is applied to a printed value and a line feed. -/
structure Linked where
  printPretty : Json → List UInt8
  parse : List UInt8 → Option Json
  hexSha256 : List UInt8 → String
  parse_printPretty : ∀ v, Printable 127 v → parse (printPretty v ++ [0x0a]) = some v

/-! ## Serialization -/

def valuesToJson (values : SortedMap String String) : Json :=
  .object (values.entries.map fun e => (e.1, .string e.2))

def skillsToJson (skills : SortedMap String (SortedMap String String)) : Json :=
  .object (skills.entries.map fun e => (e.1, valuesToJson e.2))

def SkillConfigDocument.toJson (d : SkillConfigDocument) : Json :=
  .object
    [("format_version", .number (.posInt d.formatVersion.toNat)),
      ("revision", .string (revisionText d.revision)),
      ("skills", skillsToJson d.skills)]

/-! ## The strict visitors -/

def visitString : Json → ConfigResult String
  | .string s => .ok s
  | _ => .error "invalid type, expected a string"

def visitU32 : Json → ConfigResult UInt32
  | .number (.posInt n) =>
    if n < 2 ^ 32 then .ok (UInt32.ofNat n) else .error "invalid value, expected u32"
  | _ => .error "invalid type, expected u32"

/-- The members of an object, added to `map` one by one; `duplicate` starts the error of a repeated
one. -/
def visitMap {V : Type} (duplicate : String) (visit : Json → ConfigResult V) :
    List (String × Json) → SortedMap String V → ConfigResult (SortedMap String V)
  | [], map => .ok map
  | (name, v) :: rest, map => do
    refuseIf ((map.lookup name).isSome = true) (duplicate ++ " '" ++ name ++ "'")
    let value ← visit v
    visitMap duplicate visit rest (map.insert name value)

def deserializeValues : Json → ConfigResult (SortedMap String String)
  | .object fields => visitMap "duplicate skill configuration key" visitString fields ∅
  | _ => .error "invalid type, expected an object mapping configuration keys to strings"

def deserializeNamespaces : Json → ConfigResult (SortedMap String (SortedMap String String))
  | .object fields => visitMap "duplicate skill configuration namespace" deserializeValues fields ∅
  | _ => .error "invalid type, expected an object mapping skill identifiers to string maps"

/-- The members of the document read so far. -/
structure DocumentFields where
  formatVersion : Option UInt32
  revision : Option UInt64
  skills : Option (SortedMap String (SortedMap String String))

def DocumentFields.none : DocumentFields := ⟨.none, .none, .none⟩

def visitField (field : String) (v : Json) (seen : DocumentFields) :
    ConfigResult DocumentFields :=
  match field with
  | "format_version" => do
    refuseIf (seen.formatVersion.isSome = true) "duplicate field `format_version`"
    let formatVersion ← visitU32 v
    return { seen with formatVersion := some formatVersion }
  | "revision" => do
    refuseIf (seen.revision.isSome = true) "duplicate field `revision`"
    let raw ← visitString v
    let revision ← parseRevisionText raw
    return { seen with revision := some revision }
  | "skills" => do
    refuseIf (seen.skills.isSome = true) "duplicate field `skills`"
    let skills ← deserializeNamespaces v
    return { seen with skills := some skills }
  | _ => .error ("unknown field `" ++ field ++
      "`, expected one of `format_version`, `revision`, `skills`")

def visitDocument : List (String × Json) → DocumentFields → ConfigResult DocumentFields
  | [], seen => .ok seen
  | (field, v) :: rest, seen => do
    let seen ← visitField field v seen
    visitDocument rest seen

def deserializeDocument : Json → ConfigResult SkillConfigDocument
  | .object fields => do
    let seen ← visitDocument fields DocumentFields.none
    let formatVersion ← okOr seen.formatVersion "missing field `format_version`"
    let revision ← okOr seen.revision "missing field `revision`"
    let skills ← okOr seen.skills "missing field `skills`"
    return { formatVersion, revision, skills }
  | _ => .error "invalid type, expected a strict versioned skill configuration object"

/-! ## Files -/

structure SkillConfigSnapshot where
  contentDigest : String
  document : SkillConfigDocument
deriving DecidableEq

variable (linked : Linked) (path : String)

/-- Reads the file at `path`; a missing one is the empty document. -/
def readSnapshotFrom : Option (List UInt8) → ConfigResult SkillConfigSnapshot
  | none => .ok ⟨"missing", SkillConfigDocument.default⟩
  | some bytes => do
    refuseIf (skillConfigMaxDocumentBytes < bytes.length)
      ("CONFIG_FILE_TOO_LARGE: skill config file '" ++ path ++ "' contains " ++
        bytes.length.repr ++ " bytes, exceeding the hard limit " ++
        skillConfigMaxDocumentBytes.repr)
    let document ← mapError
      (("CONFIG_FORMAT_INVALID: failed to parse skill config file '" ++ path ++ "': ") ++ ·)
      (okOr (linked.parse bytes) "invalid JSON" >>= deserializeDocument)
    validateSkillConfigDocument document
    return ⟨linked.hexSha256 bytes, document⟩

/-- What the file system answers to the calls of one write; `none` is success. `sync` is the
directory synchronization behind the replacement. -/
structure WriteAnswers where
  createDir : Option String
  tempFile : Option String
  replace : Option String
  sync : Option String

def WriteAnswers.quiet : WriteAnswers := ⟨none, none, none, none⟩

/-- One file system call. -/
def answered (label : String) : Option String → ConfigResult Unit
  | none => .ok ()
  | some e => .error (label ++ e)

/-- The serialized document, with its final line feed. -/
def serialized (document : SkillConfigDocument) : List UInt8 :=
  linked.printPretty document.toJson ++ [0x0a]

/-- The content that replaces the file. -/
def writeDocumentTo (io : WriteAnswers) (document : SkillConfigDocument) :
    ConfigResult (List UInt8) := do
  validateSkillConfigDocument document
  answered ("CONFIG_PATH_UNAVAILABLE: failed to create skill config directory of '" ++ path ++
    "': ") io.createDir
  refuseIf (skillConfigMaxDocumentBytes < (serialized linked document).length)
    ("CONFIG_FILE_TOO_LARGE: serialized skill config document contains " ++
      (serialized linked document).length.repr ++ " bytes, exceeding the hard limit " ++
      skillConfigMaxDocumentBytes.repr)
  answered "CONFIG_ATOMIC_REPLACE_FAILED: failed to write skill config temp file: " io.tempFile
  answered "CONFIG_ATOMIC_REPLACE_FAILED: failed to promote skill config temp file: " io.replace
  return serialized linked document

end LuaSkills.SkillConfig
