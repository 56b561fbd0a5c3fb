import LuaSkills.Data.Text
import LuaSkills.SkillConfig.Declaration

/-!
# Effective values and the business validator

The effective value of a declared key is its stored value, normalized, or the default. A package may
bring a validator that is run over its effective values in a sandbox and returns issues; from the
messages of these the sensitive values are redacted. `ValidatorAnswers` stands for the sandbox.
-/

namespace LuaSkills.SkillConfig

open List

def publicValueErrorCode (code : String) : String :=
  if code = "integer_out_of_range" ∨ code = "float_out_of_range" ∨ code = "string_too_short" then
    "CONFIG_VALUE_OUT_OF_RANGE"
  else if code = "string_too_long" then "CONFIG_VALUE_TOO_LONG"
  else if code = "enum_value_not_allowed" then "CONFIG_ENUM_VALUE_INVALID"
  else "CONFIG_VALUE_TYPE_INVALID"

def storedConfigValidationError (d : SkillPackageConfigDeclaration)
    (error : SkillPackageConfigValueError) : String :=
  publicValueErrorCode error.code ++ ": " ++
    if d.sensitive then "stored sensitive configuration '" ++ d.key ++ "' is invalid"
    else "stored configuration '" ++ d.key ++ "' is invalid: " ++ error.message

/-- What the package has declared, with its validator if it brings one. The manifest checks that its
keys are valid and differ. -/
structure SkillPackageConfigRegistryEntry where
  rootName : String
  configValidatorPath : Option String
  declarations : List SkillPackageConfigDeclaration
  keys_nodup : (declarations.map SkillPackageConfigDeclaration.key).Nodup
  keys_valid : ∀ d ∈ declarations, isValidSkillConfigKey d.key = true

def SkillPackageConfigRegistryEntry.find (package : SkillPackageConfigRegistryEntry)
    (key : String) : Option SkillPackageConfigDeclaration :=
  package.declarations.find? fun declaration => declaration.key = key

section
variable (floats : Floats) (stored : SortedMap String String)

/-- The stored value of a declared key in its normal form, or the default. -/
def effectiveValue (d : SkillPackageConfigDeclaration) : ConfigResult (Option String) :=
  match stored.lookup d.key with
  | some value =>
    match d.normalizeValueDetailed floats value with
    | .ok normalized => .ok (some normalized)
    | .error error => .error (storedConfigValidationError d error)
  | none => d.normalizedDefaultValue floats

/-! ## Redaction -/

def redactedMarker : String := "[REDACTED]"

/-- One replacement after the other, in the order of the declarations. -/
def redactValues : List SkillPackageConfigDeclaration → String → ConfigResult String
  | [], message => .ok message
  | declaration :: declarations, message => do
    let value ← effectiveValue floats stored declaration
    redactValues declarations
      (match value.filter (· ≠ "") with
        | some value => Text.replace message value redactedMarker
        | none => message)

def redactSensitiveValidatorValues (package : SkillPackageConfigRegistryEntry) (message : String) :
    ConfigResult String :=
  redactValues floats stored (package.declarations.filter (·.sensitive)) message

/-! ## The validator -/

def skillConfigValidatorMaxIssues : ℕ := 1024

inductive ValidatorValue where
  | integer (value : ℤ)
  | float (value : floats.F64)
  | boolean (value : Bool)
  | string (value : String)

/-- `set_validator_typed_value`. -/
def validatorTypedValue (d : SkillPackageConfigDeclaration) (normalized : String) :
    ConfigResult (ValidatorValue floats) :=
  match d.valueType with
  | .integer =>
    match parseI64 normalized with
    | .ok value => .ok (.integer value)
    | .error error => .error ("CONFIG_VALUE_TYPE_INVALID: " ++ error.text)
  | .float =>
    match floats.parse normalized with
    | .ok value => .ok (.float value)
    | .error error => .error ("CONFIG_VALUE_TYPE_INVALID: " ++ error)
  | .boolean => .ok (.boolean (normalized = "true"))
  | .string | .enum => .ok (.string normalized)

structure ValidatorIssue where
  key : Option String
  code : String
  message : String

structure RuntimeSkillPackageConfigBusinessIssue where
  key : Option String
  code : String
  message : String
deriving DecidableEq, Repr

/-- Loading the validator into a fresh sandbox, and calling it with the effective values: an array of
issues, each of which may be malformed. -/
structure ValidatorAnswers where
  load : ConfigResult Unit
  call : List (String × ValidatorValue floats) → ConfigResult (List (ConfigResult ValidatorIssue))

def validatorValues : List SkillPackageConfigDeclaration →
    ConfigResult (List (String × ValidatorValue floats))
  | [] => .ok []
  | declaration :: declarations => do
    match ← effectiveValue floats stored declaration with
    | some normalized =>
      let value ← validatorTypedValue floats declaration normalized
      return (declaration.key, value) :: (← validatorValues declarations)
    | none => validatorValues declarations

def collectIssue (package : SkillPackageConfigRegistryEntry) (issue : ValidatorIssue) :
    ConfigResult RuntimeSkillPackageConfigBusinessIssue := do
  refuseIf (issue.key.any fun key => key ∉ package.declarations.map SkillPackageConfigDeclaration.key)
    ("CONFIG_VALIDATOR_FAILED: validator issue references undeclared key '" ++
      issue.key.getD "" ++ "'")
  refuseIf (isValidSkillConfigKey issue.code = false)
    "CONFIG_VALIDATOR_FAILED: validator issue code must satisfy the config key contract"
  refuseIf (issue.message = "" ∨ 8192 < issue.message.utf8ByteSize)
    "CONFIG_VALIDATOR_FAILED: validator issue message must contain 1 to 8192 UTF-8 bytes"
  let message ← redactSensitiveValidatorValues floats stored package issue.message
  return { key := issue.key, code := "skill." ++ issue.code, message := message }

def collectIssues (package : SkillPackageConfigRegistryEntry) :
    List (ConfigResult ValidatorIssue) →
      ConfigResult (List RuntimeSkillPackageConfigBusinessIssue)
  | [] => .ok []
  | returned :: rest => do
    let issue ← collectIssue floats stored package (← returned)
    return issue :: (← collectIssues package rest)

def runBusinessValidator (answers : ValidatorAnswers floats)
    (package : SkillPackageConfigRegistryEntry) :
    ConfigResult (List RuntimeSkillPackageConfigBusinessIssue) :=
  match package.configValidatorPath with
  | none => .ok []
  | some _ => do
    answers.load
    let values ← validatorValues floats stored package.declarations
    let returned ← answers.call values
    refuseIf (skillConfigValidatorMaxIssues < returned.length)
      ("CONFIG_VALIDATOR_LIMIT_EXCEEDED: validator returned " ++ returned.length.repr ++
        " issues, exceeding " ++ skillConfigValidatorMaxIssues.repr)
    collectIssues floats stored package returned

end

/-! ## Facts -/

section
variable {floats : Floats} {stored : SortedMap String String} {d : SkillPackageConfigDeclaration}
  {package : SkillPackageConfigRegistryEntry} {key value : String}

theorem effectiveValue_of_normal (hstored : stored.lookup d.key = some value)
    (hnormal : d.normalizeValueDetailed floats value = .ok value) :
    effectiveValue floats stored d = .ok (some value) := by
  simp only [effectiveValue, hstored, hnormal]

theorem effectiveValue_congr {stored' : SortedMap String String}
    (h : stored'.lookup d.key = stored.lookup d.key) :
    effectiveValue floats stored' d = effectiveValue floats stored d := by
  simp only [effectiveValue, h]

theorem SkillPackageConfigRegistryEntry.find_eq_some :
    package.find key = some d ↔ d ∈ package.declarations ∧ d.key = key := by
  constructor
  · intro h
    exact ⟨mem_of_find?_eq_some h, by simpa using find?_some h⟩
  · rintro ⟨hmem, rfl⟩
    obtain ⟨d', hfind⟩ : ∃ d', package.find d.key = some d' := by
      refine Option.isSome_iff_exists.1 (find?_isSome.2 ⟨d, hmem, ?_⟩)
      exact decide_eq_true rfl
    have hkey : d'.key = d.key := by simpa using find?_some hfind
    rw [hfind, inj_on_of_nodup_map package.keys_nodup (mem_of_find?_eq_some hfind) hmem hkey]

end

end LuaSkills.SkillConfig
