import LuaSkills.SkillConfig.Moves
import LuaSkills.SkillConfig.Validator

/-!
# The package configuration service

The service composes the declarations of the loaded packages with the stores of the two roots. It is
modelled between calls: a store is its cached snapshot and its file. A batch is normalized first, then
written in one transaction over the file; reads take the cached snapshot and normalize it again.
-/

namespace LuaSkills.SkillConfig

/-! ## A store between two calls -/

structure StoreFile where
  snapshot : SkillConfigSnapshot
  disk : Option (List UInt8)

structure SkillConfigWriteResult where
  revision : String
  changed : Bool
  values : SortedMap String String
  changedKeys : List String
  durabilityError : Option String

/-- What the system answers to the calls of one write; `none` is success. -/
structure StoreAnswers where
  lock : Option String
  load : Option String
  write : WriteAnswers

def StoreAnswers.quiet : StoreAnswers := ⟨none, none, .quiet⟩

def StoreFile.skillValues (store : StoreFile) (skillId : String) : SortedMap String String :=
  (store.snapshot.document.skills.lookup skillId).getD ∅

section
variable (linked : Linked) (path : String)

def StoreFile.setValuesValidated (store : StoreFile) (answers : StoreAnswers) (skillId : String)
    (values : SortedMap String String) (expectedRevision : Option String)
    (validateCandidate : SortedMap String String → ConfigResult Unit) :
    ConfigResult (SkillConfigWriteResult × StoreFile) := do
  let request := WriteRequest.set skillId values validateCandidate
  let expected ← request.prepare expectedRevision
  answered "" answers.lock
  let write : WriteCall := ⟨0, request, expected⟩
  let disk ← (World.initial store.disk).readCurrent linked path ⟨store.snapshot, .idle⟩ write
    answers.load
  let (snapshot, changedKeys, bytes) ← World.transact linked path write disk answers.write
  return (
    { revision := revisionText snapshot.document.revision
      changed := changedKeys ≠ []
      values := values
      changedKeys := changedKeys
      durabilityError := if bytes.isSome then answers.write.sync else none },
    { snapshot := snapshot, disk := bytes.or store.disk })

end

/-! ## The service -/

structure SkillConfigStoreRouter where
  normal : StoreFile
  system : StoreFile

def SkillConfigStoreRouter.forRoot (stores : SkillConfigStoreRouter) (rootName : String) : StoreFile :=
  if rootName = "ROOT" then stores.system else stores.normal

def SkillConfigStoreRouter.setRoot (stores : SkillConfigStoreRouter) (rootName : String)
    (store : StoreFile) : SkillConfigStoreRouter :=
  if rootName = "ROOT" then { stores with system := store } else { stores with normal := store }

structure SkillPackageConfigService where
  stores : Option SkillConfigStoreRouter
  registry : SortedMap String SkillPackageConfigRegistryEntry

/-- One typed scalar of a write request. -/
inductive SkillPackageConfigInputValue (floats : Floats) where
  | string (value : String)
  | integer (value : ℤ)
  | float (value : floats.F64)
  | boolean (value : Bool)

structure RuntimeSkillPackageConfigIssue where
  key : String
  code : String
  message : String
deriving DecidableEq, Repr

structure RuntimeSkillPackageConfigStatus where
  skillId : String
  complete : Bool
  revision : String
  storeScope : String
  missing : List RuntimeSkillPackageConfigIssue
  invalid : List RuntimeSkillPackageConfigIssue
  businessIssues : List RuntimeSkillPackageConfigBusinessIssue
  orphaned : List String
  orphanedCount : ℕ

section
variable (floats : Floats)

def SkillPackageConfigInputValue.rawForDeclaration (input : SkillPackageConfigInputValue floats)
    (d : SkillPackageConfigDeclaration) : ConfigResult String :=
  let mismatch := "CONFIG_VALUE_TYPE_INVALID: " ++
    d.about ("requires a " ++ d.valueType.asStr ++ " input")
  match input with
  | .string value => .ok value
  | .integer value =>
    if d.valueType = .integer ∨ d.valueType = .float then .ok value.repr else .error mismatch
  | .float value =>
    if d.valueType = .float then do
      refuseIf (floats.isFinite value = false)
        ("CONFIG_VALUE_TYPE_INVALID: " ++ d.about "requires one finite float")
      return floats.display value
    else .error mismatch
  | .boolean value =>
    if d.valueType = .boolean then .ok (if value then "true" else "false") else .error mismatch

def keyUndeclared (skillId key : String) : String :=
  "CONFIG_KEY_UNDECLARED: configuration key '" ++ key ++
    "' is not declared by skill package '" ++ skillId ++ "'"

def inputError (skillId : String) (d : SkillPackageConfigDeclaration)
    (error : SkillPackageConfigValueError) : String :=
  publicValueErrorCode error.code ++ ": invalid configuration value for skill package '" ++ skillId ++
    "': " ++
    if d.sensitive then "invalid sensitive configuration value for key '" ++ d.key ++ "'"
    else error.message

/-- The batch in its normal form. -/
def normalizeInput (package : SkillPackageConfigRegistryEntry) (skillId key : String)
    (input : SkillPackageConfigInputValue floats) : ConfigResult String := do
  let declaration ← okOr (package.find key) (keyUndeclared skillId key)
  let rawValue ← input.rawForDeclaration floats declaration
  match declaration.normalizeValueDetailed floats rawValue with
  | .ok normalized => return normalized
  | .error error => .error (inputError skillId declaration error)

def normalizeInputs (package : SkillPackageConfigRegistryEntry) (skillId : String) :
    List (String × SkillPackageConfigInputValue floats) → SortedMap String String →
      ConfigResult (SortedMap String String)
  | [], normalizedValues => .ok normalizedValues
  | (key, input) :: rest, normalizedValues => do
    let normalized ← normalizeInput floats package skillId key input
    normalizeInputs package skillId rest (normalizedValues.insert key normalized)

def storedValueIssueMessage (d : SkillPackageConfigDeclaration) (code : String) : String :=
  let reason :=
    if code = "invalid_integer" then "stored value is not one signed 64-bit integer"
    else if code = "integer_out_of_range" then
      "stored integer is outside the declared inclusive range"
    else if code = "string_too_short" then
      "stored string is shorter than the declared minimum length"
    else if code = "string_too_long" then "stored string is longer than the declared maximum length"
    else if code = "invalid_float" then "stored value is not one 64-bit floating-point number"
    else if code = "float_not_finite" then "stored floating-point value is not finite"
    else if code = "float_out_of_range" then
      "stored floating-point value is outside the declared inclusive range"
    else if code = "enum_value_not_allowed" then "stored value is not one declared enumeration option"
    else if code = "invalid_boolean" then "stored value is not exactly 'true' or 'false'"
    else "stored value does not satisfy the current declaration"
  "configuration '" ++ d.key ++ "': " ++ reason

def listInto (stored : SortedMap String String) : List SkillPackageConfigDeclaration →
    SortedMap String String → ConfigResult (SortedMap String String)
  | [], values => .ok values
  | declaration :: declarations, values => do
    match ← effectiveValue floats stored declaration with
    | some value => listInto stored declarations (values.insert declaration.key value)
    | none => listInto stored declarations values

/-- What one declaration adds to the missing and the invalid values. -/
def declarationIssues (stored : SortedMap String String) (d : SkillPackageConfigDeclaration) :
    ConfigResult (List RuntimeSkillPackageConfigIssue × List RuntimeSkillPackageConfigIssue) :=
  match stored.lookup d.key with
  | some value =>
    match d.normalizeValueDetailed floats value with
    | .ok _ => .ok ([], [])
    | .error error =>
      .ok ([], [{
        key := d.key
        code := error.code
        message := d.description ++ ": " ++ storedValueIssueMessage d error.code }])
  | none =>
    if d.required then do
      match ← d.normalizedDefaultValue floats with
      | some _ => return ([], [])
      | none =>
        return ([{
          key := d.key
          code := "config_value_missing"
          message := "required configuration '" ++ d.key ++ "' (" ++ d.description ++
            ") has no stored or default value" }], [])
    else .ok ([], [])

def collectDeclarationIssues (stored : SortedMap String String) :
    List SkillPackageConfigDeclaration →
      ConfigResult (List RuntimeSkillPackageConfigIssue × List RuntimeSkillPackageConfigIssue)
  | [] => .ok ([], [])
  | declaration :: declarations => do
    let first ← declarationIssues floats stored declaration
    let rest ← collectDeclarationIssues stored declarations
    return (first.1 ++ rest.1, first.2 ++ rest.2)

def statusForPackage (answers : ValidatorAnswers floats) (skillId : String)
    (package : SkillPackageConfigRegistryEntry) (stored : SortedMap String String)
    (revision : String) : ConfigResult RuntimeSkillPackageConfigStatus := do
  let declaredKeys := package.declarations.map SkillPackageConfigDeclaration.key
  let orphaned := stored.keys.filter fun key => key ∉ declaredKeys
  let (missing, invalid) ← collectDeclarationIssues floats stored package.declarations
  let businessIssues ← (
    if invalid = [] then runBusinessValidator floats stored answers package else .ok [])
  return {
    skillId := skillId
    complete := missing = [] ∧ invalid = [] ∧ businessIssues = []
    revision := revision
    storeScope := if package.rootName = "ROOT" then "system-skills" else "skills"
    missing := missing
    invalid := invalid
    businessIssues := businessIssues
    orphaned := orphaned
    orphanedCount := orphaned.length }

end

namespace SkillPackageConfigService
variable (linked : Linked) (path : String) (floats : Floats) (service : SkillPackageConfigService)

def package (skillId : String) : ConfigResult SkillPackageConfigRegistryEntry :=
  okOr (service.registry.lookup skillId)
    ("CONFIG_PACKAGE_NOT_FOUND: skill package '" ++ skillId ++ "' is not loaded or effective")

def storeForPackage (package : SkillPackageConfigRegistryEntry) : ConfigResult StoreFile := do
  let stores ← okOr service.stores ("CONFIG_PATH_UNAVAILABLE: host_options.skill_config_root must " ++
    "be configured before using skill package configuration")
  return stores.forRoot package.rootName

def validateCandidate (answers : ValidatorAnswers floats) (skillId : String)
    (package : SkillPackageConfigRegistryEntry) (candidate : SortedMap String String) :
    ConfigResult Unit := do
  let issues ← runBusinessValidator floats candidate answers package
  let codes := SortedMap.keySet (issues.map RuntimeSkillPackageConfigBusinessIssue.code)
  refuseIf (issues ≠ [])
    ("CONFIG_VALIDATOR_FAILED: skill package '" ++ skillId ++
      "' configuration failed business validation with " ++ issues.length.repr ++ " issue(s) [" ++
      String.intercalate "," codes ++ "]")

/-- The batch normalized and written, before the service is told. -/
def writeDeclared (answers : StoreAnswers) (validator : ValidatorAnswers floats) (skillId : String)
    (values : SortedMap String (SkillPackageConfigInputValue floats))
    (expectedRevision : Option String) :
    ConfigResult (SkillPackageConfigRegistryEntry × SkillConfigWriteResult × StoreFile) := do
  refuseIf (values.isEmpty = true) "CONFIG_BATCH_EMPTY: configuration batch must not be empty"
  let package ← service.package skillId
  let normalizedValues ← normalizeInputs floats package skillId values.entries ∅
  let store ← service.storeForPackage package
  let written ← store.setValuesValidated linked path answers skillId normalizedValues
    expectedRevision (validateCandidate floats validator skillId package)
  return (package, written)

/-- A committed write is installed also when it could not be made durable. -/
def setDeclaredValues (answers : StoreAnswers) (validator : ValidatorAnswers floats)
    (skillId : String) (values : SortedMap String (SkillPackageConfigInputValue floats))
    (expectedRevision : Option String) :
    ConfigResult SkillConfigWriteResult × SkillPackageConfigService :=
  match service.writeDeclared linked path floats answers validator skillId values
    expectedRevision with
  | .error message => (.error message, service)
  | .ok (package, result, store) =>
    (match result.durabilityError with
      | some message => .error message
      | none => .ok result,
      { service with stores := service.stores.map fun stores => stores.setRoot package.rootName store })

def getEffectiveValue (skillId key : String) : ConfigResult (Option String) := do
  let package ← service.package skillId
  let declaration ← okOr (package.find key) (keyUndeclared skillId key)
  let store ← service.storeForPackage package
  let _ ← validateSkillConfigSkillId skillId
  let _ ← validateSkillConfigKey key
  effectiveValue floats (store.skillValues skillId) declaration

def listEffectiveValues (skillId : String) : ConfigResult (SortedMap String String) := do
  let package ← service.package skillId
  let store ← service.storeForPackage package
  let _ ← validateSkillConfigSkillId skillId
  listInto floats (store.skillValues skillId) package.declarations ∅

def status (validator : ValidatorAnswers floats) (skillId : String) :
    ConfigResult RuntimeSkillPackageConfigStatus := do
  let package ← service.package skillId
  let store ← service.storeForPackage package
  let _ ← validateSkillConfigSkillId skillId
  statusForPackage floats validator skillId package (store.skillValues skillId)
    (revisionText store.snapshot.document.revision)

end SkillPackageConfigService

end LuaSkills.SkillConfig
