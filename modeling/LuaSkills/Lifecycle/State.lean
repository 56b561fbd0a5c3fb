import LuaSkills.Data.Disk
import LuaSkills.SkillConfig.Document

/-!
# The skill manager's disk

A lifecycle change of one skill moves its package directory, the backup of it, the staged new package
and two record files. Every file-system call and every clock reading takes the answer of the
environment; the serializers of the records are parameters.
-/

namespace LuaSkills.Lifecycle

open SkillConfig (trim validateLuaskillsIdentifier)

/-! ## Records -/

inductive SkillInstallSourceType where
  | github
  | officialHub
  | url
  | privateUrlManifest
deriving DecidableEq

structure InstalledSkillSourceRecord where
  sourceType : SkillInstallSourceType
  locator : String
  tag : Option String
deriving DecidableEq

structure InstalledSkillRecord where
  skillId : String
  version : String
  managed : Bool
  source : InstalledSkillSourceRecord
  installedAtUnixMs : ℕ
  packagePlatform : Option String
deriving DecidableEq

structure DisabledSkillRecord where
  skillId : String
  reason : Option String
  disabledAtUnixMs : ℕ
deriving DecidableEq

/-- The YAML of install records and the JSON of disabled records, as their libraries print and read
them. -/
structure RecordSerde where
  renderInstall : InstalledSkillRecord → String
  parseInstall : String → Option InstalledSkillRecord
  renderDisabled : DisabledSkillRecord → String
  parseDisabled : String → Option DisabledSkillRecord

namespace RecordSerde
variable (serde : RecordSerde)

def RestoresInstall (record : InstalledSkillRecord) : Prop :=
  serde.parseInstall (serde.renderInstall record) = some record

def RestoresDisabled (record : DisabledSkillRecord) : Prop :=
  serde.parseDisabled (serde.renderDisabled record) = some record

end RecordSerde

/-! ## Results -/

structure SkillApplyResult where
  skillId : String
  status : String
  message : String
  version : Option String
  sourceType : Option SkillInstallSourceType
  sourceLocator : Option String
  packagePlatform : Option String
deriving DecidableEq

structure SkillUninstallResult where
  skillId : String
  skillRemoved : Bool
  message : String
deriving DecidableEq

inductive SkillOperationPlane where
  | skills
  | system
deriving DecidableEq

inductive SkillLifecycleAction where
  | install
  | update
  | uninstall
deriving DecidableEq

def SkillLifecycleAction.debug : SkillLifecycleAction → String
  | .install => "Install"
  | .update => "Update"
  | .uninstall => "Uninstall"

/-! ## Paths -/

/-- The paths that one change can touch. Records are filed under the skill id of their own text. -/
inductive Place where
  | package
  | backup
  | staged
  | install (skillId : String)
  | disabled (skillId : String)
deriving DecidableEq

def join (path component : String) : String := path ++ "/" ++ component

structure SkillManager where
  rootName : String
  skillsDir : String
  lifecycleRoot : String

namespace SkillManager
variable (m : SkillManager)

def installRecordRoot : String := join m.lifecycleRoot "installs"

def disabledRoot : String := join (join m.lifecycleRoot "skills") "disabled"

def disabledRecordPath (skillId : String) : String := join m.disabledRoot (skillId ++ ".json")

def installRecordPath (skillId : String) : String := join m.installRecordRoot (skillId ++ ".yaml")

def targetDir (skillId : String) : String := join m.skillsDir skillId

/-- The directory of one stamped staging root or backup. -/
def stampedDir (area skillId : String) (timestamp : ℕ) : String :=
  join (join m.lifecycleRoot area) (skillId ++ "-" ++ timestamp.repr)

def isRootSkillLayer : Bool :=
  (trim m.rootName).toList.map Char.toUpper = ['R', 'O', 'O', 'T']

def guardOperation (plane : SkillOperationPlane) (action : SkillLifecycleAction)
    (skillId : String) : Except String Unit := do
  validateLuaskillsIdentifier skillId "skill_id"
  refuseIf (plane = .skills ∧ m.isRootSkillLayer = true)
    ("ROOT skill root is system-controlled and cannot be processed through the skills plane for " ++
      "action " ++ action.debug)

end SkillManager

/-! ## Probes -/

open Disk DiskProg

def isDir : DiskNode → Bool
  | .dir _ => true
  | .file _ => false

def isFile : DiskNode → Bool
  | .dir _ => false
  | .file _ => true

/-- One inspection of a path that must be absent or of one kind. -/
def probe (kind : DiskNode → Bool) (mistyped failed : String) (answer : IoAnswer) (place : Place)
    (path : String) : DiskProg Place Bool := do
  match ← mapErr (fun e => failed ++ " " ++ path ++ ": " ++ e) (metadata answer place) with
  | none => pure false
  | some node => if kind node then pure true else lift (.error (mistyped ++ ": " ++ path))

def disabledRecordPathIsFile :=
  probe isFile "Disabled record is not a file" "Failed to inspect disabled record"

def installRecordPathIsFile :=
  probe isFile "Install record is not a file" "Failed to inspect install record"

def skillPackageDirIsDirectory :=
  probe isDir "Skill package path is not a directory" "Failed to inspect skill package directory"

def stagingTempRootIsDirectory :=
  probe isDir "Skill staging temp root is not a directory"
    "Failed to inspect skill staging temp root"

/-! ## Record files -/

structure LayoutAnswers where
  disabledRoot : IoAnswer
  installRecordRoot : IoAnswer

structure PersistAnswers where
  layout : LayoutAnswers
  write : WriteAnswer

structure ReadAnswers where
  probe : IoAnswer
  read : IoAnswer

structure RemoveAnswers where
  layout : LayoutAnswers
  probe : IoAnswer
  remove : IoAnswer

structure RestoreAnswers where
  persist : PersistAnswers
  remove : RemoveAnswers

namespace SkillManager
variable (m : SkillManager) (serde : RecordSerde)

def ensureStateLayout (answers : LayoutAnswers) : DiskProg Place Unit := do
  mapErr (fun e => "Failed to create disabled root " ++ m.disabledRoot ++ ": " ++ e)
    (createDirAll answers.disabledRoot)
  mapErr (fun e => "Failed to create install-record root " ++ m.installRecordRoot ++ ": " ++ e)
    (createDirAll answers.installRecordRoot)

def readRecord {R : Type} (exists? : DiskProg Place Bool) (answer : IoAnswer) (place : Place)
    (path : String) (parse : String → Option R) : DiskProg Place (Option R) := do
  if ← exists? then
    let text ← mapErr (fun e => "Failed to read " ++ path ++ ": " ++ e) (readToString answer place)
    return some (← lift (okOr (parse text) ("Failed to parse " ++ path)))
  else return none

def disabledRecord (answers : ReadAnswers) (skillId : String) :
    DiskProg Place (Option DisabledSkillRecord) :=
  let path := m.disabledRecordPath skillId
  readRecord (disabledRecordPathIsFile answers.probe (.disabled skillId) path) answers.read
    (.disabled skillId) path serde.parseDisabled

def installRecord (answers : ReadAnswers) (skillId : String) :
    DiskProg Place (Option InstalledSkillRecord) := do
  lift (validateLuaskillsIdentifier skillId "skill_id")
  let path := m.installRecordPath skillId
  readRecord (installRecordPathIsFile answers.probe (.install skillId) path) answers.read
    (.install skillId) path serde.parseInstall

def persistRecord (answers : PersistAnswers) (place : Place) (path text : String) :
    DiskProg Place Unit := do
  m.ensureStateLayout answers.layout
  mapErr (fun e => "Failed to write " ++ path ++ ": " ++ e) (write answers.write place text)

def persistInstallRecord (answers : PersistAnswers) (record : InstalledSkillRecord) :
    DiskProg Place Unit :=
  m.persistRecord answers (.install record.skillId) (m.installRecordPath record.skillId)
    (serde.renderInstall record)

def persistDisabledRecord (answers : PersistAnswers) (record : DisabledSkillRecord) :
    DiskProg Place Unit :=
  m.persistRecord answers (.disabled record.skillId) (m.disabledRecordPath record.skillId)
    (serde.renderDisabled record)

def removeRecord (exists? : DiskProg Place Bool) (answer : IoAnswer) (place : Place)
    (path : String) : DiskProg Place Bool := do
  if ← exists? then
    mapErr (fun e => "Failed to remove " ++ path ++ ": " ++ e) (removeFile answer place)
    return true
  else return false

def removeInstallRecord (answers : RemoveAnswers) (skillId : String) : DiskProg Place Bool := do
  lift (validateLuaskillsIdentifier skillId "skill_id")
  let path := m.installRecordPath skillId
  removeRecord (installRecordPathIsFile answers.probe (.install skillId) path) answers.remove
    (.install skillId) path

/-- Unlike the removal of an install record, this creates the state layout first. -/
def removeDisabledRecord (answers : RemoveAnswers) (skillId : String) : DiskProg Place Bool := do
  lift (validateLuaskillsIdentifier skillId "skill_id")
  m.ensureStateLayout answers.layout
  let path := m.disabledRecordPath skillId
  removeRecord (disabledRecordPathIsFile answers.probe (.disabled skillId) path) answers.remove
    (.disabled skillId) path

def restoreDisabledRecord (answers : RestoreAnswers) (skillId : String) :
    Option DisabledSkillRecord → DiskProg Place Unit
  | some record => m.persistDisabledRecord serde answers.persist record
  | none => do
    let _ ← m.removeDisabledRecord answers.remove skillId

def restoreInstallRecord (answers : RestoreAnswers) (skillId : String) :
    Option InstalledSkillRecord → DiskProg Place Unit
  | some record => m.persistInstallRecord serde answers.persist record
  | none => do
    let _ ← m.removeInstallRecord answers.remove skillId

end SkillManager

/-! ## The managed state -/

/-- What reading a record file gives. -/
inductive RecordView (R : Type) where
  | missing
  | unreadable
  | record (value : R)
deriving DecidableEq

def recordView {R : Type} (parse : String → Option R) : Option DiskNode → RecordView R
  | none => .missing
  | some (.dir _) => .unreadable
  | some (.file text) =>
    match parse text with
    | some value => .record value
    | none => .unreadable

/-- The state of a skill that a lifecycle change replaces or keeps as a whole. -/
@[ext] structure Managed where
  package : Option DiskNode
  install : RecordView InstalledSkillRecord
  disabled : RecordView DisabledSkillRecord
deriving DecidableEq

def managed (serde : RecordSerde) (skillId : String) (d : Disk Place) : Managed where
  package := d .package
  install := recordView serde.parseInstall (d (.install skillId))
  disabled := recordView serde.parseDisabled (d (.disabled skillId))

end LuaSkills.Lifecycle
