import LuaSkills.Data.Fallible
import LuaSkills.Data.SortedMap
import LuaSkills.Embedded.Config
import Mathlib.Data.List.Infix
import Mathlib.Data.String.Basic

/-!
# Skill configuration documents

One persisted configuration file: a format version, a revision and the string values of every skill
package. Errors are the texts the store returns; their first word is the stable error code.
-/

namespace LuaSkills.SkillConfig
open LuaSkills.Embedded

/-- What the store returns: a value, or an error text. -/
abbrev ConfigResult (α : Type) := Except String α

def skillConfigFormatVersion : UInt32 := 1

def skillConfigMaxPackagesPerDocument : ℕ := 10000

def skillConfigMaxDocumentBytes : ℕ := 64 * 1024 * 1024

def skillConfigMaxItemsPerPackage : ℕ := 1024

def skillConfigMaxValueBytes : ℕ := 1048576

def skillConfigMaxBatchKeys : ℕ := skillConfigMaxItemsPerPackage

def skillConfigReservedKeyPrefix : String := "luaskills."

/-! ## Identifiers and keys -/

/-- `str::trim`. -/
def trim (text : String) : String :=
  String.ofList ((text.toList.dropWhile isWhitespace).reverse.dropWhile isWhitespace).reverse

def isAsciiLowercase (c : Char) : Bool := 'a' ≤ c && c ≤ 'z'

def isValidLuaskillsIdentifier (value : String) : Bool :=
  match (trim value).toList with
  | [] => false
  | first :: rest =>
    isAsciiLowercase first && (first :: rest).getLast? ≠ some '-' &&
      rest.all fun c => isAsciiLowercase c || c.isDigit || c = '-'

def validateLuaskillsIdentifier (value label : String) : ConfigResult Unit :=
  refuseIf (isValidLuaskillsIdentifier value = false)
    (label ++ " must match ^[a-z]([a-z0-9-]*[a-z0-9])?$")

/-- The error of a failing check, behind the code its caller adds. -/
def mapError {α : Type} (f : String → String) : ConfigResult α → ConfigResult α
  | .ok a => .ok a
  | .error e => .error (f e)

def validateSkillConfigSkillId (skillId : String) : ConfigResult String := do
  refuseIf (trim skillId ≠ skillId)
    "CONFIG_PACKAGE_NOT_FOUND: skill_id must not contain surrounding whitespace"
  mapError ("CONFIG_PACKAGE_NOT_FOUND: " ++ ·) (validateLuaskillsIdentifier skillId "skill_id")
  return skillId

/-- One segment of a dotted key: not empty, with no separator at either end. -/
def isValidKeySegment (segment : List Char) : Bool :=
  segment ≠ [] && segment.head? ∉ [some '_', some '-'] && segment.getLast? ∉ [some '_', some '-']

def isValidSkillConfigKey (value : String) : Bool :=
  match value.toList with
  | [] => false
  | first :: rest =>
    value.utf8ByteSize ≤ 128 && !(skillConfigReservedKeyPrefix.toList.isPrefixOf value.toList) &&
      isAsciiLowercase first &&
      (rest.all fun c => isAsciiLowercase c || c.isDigit || c = '_' || c = '.' || c = '-') &&
      value.toList.getLast? ∉ [some '.', some '_', some '-'] &&
      !decide (['.', '.'] <:+: value.toList) &&
      (value.toList.splitOn '.').all isValidKeySegment

def validateSkillConfigKey (key : String) : ConfigResult String := do
  refuseIf (isValidSkillConfigKey key = false)
    ("CONFIG_KEY_INVALID: configuration key '" ++ key ++
      "' does not satisfy the strict package key contract")
  return key

/-! ## Revision texts -/

/-- `u64::to_string`. -/
def revisionText (revision : UInt64) : String := revision.toNat.repr

def isCanonicalDecimal (value : String) : Bool :=
  value ≠ "" && value.toList.all Char.isDigit &&
    !(1 < value.utf8ByteSize && value.toList.head? = some '0')

def parseRevisionText (value : String) : ConfigResult UInt64 := do
  refuseIf (isCanonicalDecimal value = false) "must be a canonical unsigned decimal string"
  let n := Nat.ofDigitChars 10 value.toList 0
  refuseIf (2 ^ 64 ≤ n)
    "is outside the unsigned 64-bit range: number too large to fit in target type"
  return UInt64.ofNat n

def parseExpectedRevision (value : String) : ConfigResult UInt64 :=
  mapError ("CONFIG_REVISION_INVALID: expected_revision " ++ ·) (parseRevisionText value)

/-! ## Documents -/

structure SkillConfigDocument where
  formatVersion : UInt32
  revision : UInt64
  skills : SortedMap String (SortedMap String String)
deriving DecidableEq

/-- The document before the first write. -/
def SkillConfigDocument.default : SkillConfigDocument where
  formatVersion := skillConfigFormatVersion
  revision := 0
  skills := ∅

/-- The stored value of one key. -/
def SkillConfigDocument.value (d : SkillConfigDocument) (skillId key : String) : Option String :=
  (d.skills.lookup skillId).bind fun values => values.lookup key

def validateEntry (skillId : String) (entry : String × String) : ConfigResult Unit := do
  let _ ← validateSkillConfigKey entry.1
  refuseIf (skillConfigMaxValueBytes < entry.2.utf8ByteSize)
    ("CONFIG_VALUE_TOO_LONG: skill package '" ++ skillId ++ "' configuration '" ++ entry.1 ++
      "' exceeds the hard limit " ++ skillConfigMaxValueBytes.repr ++ " UTF-8 bytes")

def validatePackage (package : String × SortedMap String String) : ConfigResult Unit := do
  let _ ← validateSkillConfigSkillId package.1
  refuseIf (package.2.isEmpty = true)
    ("CONFIG_FORMAT_INVALID: skill package '" ++ package.1 ++ "' must not persist an empty object")
  refuseIf (skillConfigMaxItemsPerPackage < package.2.size)
    ("CONFIG_FILE_TOO_LARGE: skill package '" ++ package.1 ++ "' contains " ++
      package.2.size.repr ++ " values, exceeding the hard limit " ++
      skillConfigMaxItemsPerPackage.repr)
  package.2.entries.forM (validateEntry package.1)

def validateSkillConfigDocument (document : SkillConfigDocument) : ConfigResult Unit := do
  refuseIf (document.formatVersion ≠ skillConfigFormatVersion)
    ("CONFIG_FORMAT_VERSION_UNSUPPORTED: expected format_version " ++
      skillConfigFormatVersion.toNat.repr ++ " but found " ++ document.formatVersion.toNat.repr)
  refuseIf (skillConfigMaxPackagesPerDocument < document.skills.size)
    ("CONFIG_FILE_TOO_LARGE: configuration document contains " ++ document.skills.size.repr ++
      " skill packages, exceeding the hard limit " ++ skillConfigMaxPackagesPerDocument.repr)
  refuseIf (document.revision = 0 ∧ document.skills.isEmpty = false)
    "CONFIG_REVISION_INVALID: revision 0 is reserved for an empty unwritten document"
  document.skills.entries.forM validatePackage

/-! ## Facts -/

theorem validateSkillConfigDocument_default :
    validateSkillConfigDocument SkillConfigDocument.default = .ok () := rfl

theorem validatePackage_eq_ok : validatePackage package = .ok () ↔
      (∃ skillId, validateSkillConfigSkillId package.1 = .ok skillId) ∧
      package.2.isEmpty = false ∧ package.2.size ≤ skillConfigMaxItemsPerPackage ∧
      package.2.entries.forM (validateEntry package.1) = .ok () := by
  simp only [validatePackage, Except.bind_eq_ok, refuseIf_eq_ok, Bool.not_eq_true, not_lt]
  constructor
  · rintro ⟨skillId, hid, -, hempty, -, hsize, hentries⟩
    exact ⟨⟨skillId, hid⟩, hempty, hsize, hentries⟩
  · rintro ⟨⟨skillId, hid⟩, hempty, hsize, hentries⟩
    exact ⟨skillId, hid, (), hempty, (), hsize, hentries⟩

theorem validateSkillConfigDocument_eq_ok : validateSkillConfigDocument d = .ok () ↔
      d.formatVersion = skillConfigFormatVersion ∧
      d.skills.size ≤ skillConfigMaxPackagesPerDocument ∧ (d.revision = 0 → d.skills = ∅) ∧
      d.skills.entries.forM validatePackage = .ok () := by
  simp only [validateSkillConfigDocument, Except.bind_eq_ok, refuseIf_eq_ok, not_and, not_not,
    not_lt, Bool.not_eq_false, SortedMap.isEmpty_iff]
  constructor
  · rintro ⟨-, hversion, -, hsize, -, hzero, hpackages⟩
    exact ⟨hversion, hsize, hzero, hpackages⟩
  · rintro ⟨hversion, hsize, hzero, hpackages⟩
    exact ⟨(), hversion, (), hsize, (), hzero, hpackages⟩

end LuaSkills.SkillConfig
