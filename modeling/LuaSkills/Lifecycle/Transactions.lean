import LuaSkills.Lifecycle.State

/-!
# Install, update and uninstall

Each change is prepared, and then committed or, when the runtime's reload or the commit fails, rolled
back. `Change` collects what the environment decides in one such transaction.
-/

namespace LuaSkills.Lifecycle

open Disk DiskProg

/-! ## Staging an archive -/

/-- An archive that the source resolution selected and downloaded. -/
structure Archive where
  version : String
  source : InstalledSkillSourceRecord
  message : String

/-- The environment of one extraction: `manifest` is the skill id and the version that the extracted
manifest names, `platform` what the check of the platform marker gives. -/
structure UnpackAnswers where
  clock : Except String ℕ
  probe : IoAnswer
  stale : RemovalAnswer
  create : IoAnswer
  extracted : Except String (List (String × String))
  manifest : Except String (String × String)
  platform : Except String (Option String)
  dropped : RemovalAnswer

structure InstallAnswers where
  unpack : UnpackAnswers
  target : IoAnswer
  move : IoAnswer
  cleanup : RemovalAnswer
  stamp : Except String ℕ

structure UpdateAnswers where
  record : ReadAnswers
  unpack : UnpackAnswers
  target : IoAnswer
  clock : Except String ℕ
  parent : IoAnswer
  backup : IoAnswer
  publish : IoAnswer
  unpublish : IoAnswer
  cleanup : RemovalAnswer
  stamp : Except String ℕ

structure PreparedSkillInstall where
  result : SkillApplyResult
  installRecord : InstalledSkillRecord

structure PreparedSkillUpdate where
  result : SkillApplyResult
  backupDir : String
  installRecord : InstalledSkillRecord
  previousInstallRecord : InstalledSkillRecord

inductive PreparedSkillApply where
  | immediate (result : SkillApplyResult)
  | install (prepared : PreparedSkillInstall)
  | update (prepared : PreparedSkillUpdate)

/-- The texts in which the two staging functions differ before the package is moved. -/
structure StagingLabels where
  area : String
  root : String
  package : String

def installLabels : StagingLabels := ⟨"install_tmp", "temp install root", "skill"⟩

def updateLabels : StagingLabels := ⟨"update_tmp", "temp update root", "update"⟩

def stagedRecord (skillId : String) (archive : Archive) (stamp : ℕ) (platform : Option String) :
    InstalledSkillRecord where
  skillId := skillId
  version := archive.version
  managed := true
  source := archive.source
  installedAtUnixMs := stamp
  packagePlatform := platform

def appliedResult (status message skillId : String) (archive : Archive)
    (record : InstalledSkillRecord) : SkillApplyResult where
  skillId := skillId
  status := status
  message := message
  version := some archive.version
  sourceType := some archive.source.sourceType
  sourceLocator := some archive.source.locator
  packagePlatform := record.packagePlatform

/-- The extracted package in its staging root. A failed extraction leaves a part of it there, which
nothing reads. -/
def extractSkillPackage (extracted : Except String (List (String × String))) :
    DiskProg Place Unit := fun d =>
  match extracted with
  | .ok entries => (.ok (), Function.update d .staged (some (.dir entries)))
  | .error e => (.error e, d)

namespace SkillManager
variable (m : SkillManager) (serde : RecordSerde) (skillId : String)

/-- An empty staging root; a stale one is removed first. -/
def openStagingRoot (labels : StagingLabels) (answers : UnpackAnswers) : DiskProg Place Unit := do
  let timestamp ← lift answers.clock
  let root := m.stampedDir labels.area skillId timestamp
  if ← stagingTempRootIsDirectory answers.probe .staged root then
    mapErr (fun e => "Failed to remove stale " ++ labels.root ++ " " ++ root ++ ": " ++ e)
      (removeDirAll answers.stale .staged)
  mapErr (fun e => "Failed to create " ++ labels.root ++ " " ++ root ++ ": " ++ e)
    (createDirAll answers.create)

def extractVerified (labels : StagingLabels) (answers : UnpackAnswers) (archive : Archive) :
    DiskProg Place (Option String) := do
  extractSkillPackage answers.extracted
  let (metaId, metaVersion) ← lift answers.manifest
  lift (refuseIf (metaId ≠ skillId) ("downloaded " ++ labels.package ++
    " package resolves to skill_id '" ++ metaId ++ "' instead of '" ++ skillId ++ "'"))
  lift (refuseIf (metaVersion ≠ archive.version) ("downloaded " ++ labels.package ++
    " package version '" ++ metaVersion ++ "' does not match resolved version '" ++
    archive.version ++ "'"))
  lift answers.platform

/-- The part of an install that the guard of the staging root covers: an error here drops the
root. -/
def stageInstallPackage (answers : InstallAnswers) (archive : Archive) :
    DiskProg Place (Option String) := do
  let platform ← extractVerified skillId installLabels answers.unpack archive
  let target := m.targetDir skillId
  if ← skillPackageDirIsDirectory answers.target .package target then
    lift (.error ("target skill directory " ++ target ++ " already exists"))
  mapErr (fun e => "Failed to move extracted skill into " ++ target ++ ": " ++ e)
    (rename answers.move .staged .package)
  return platform

def stageSkillInstallFromArchive (answers : InstallAnswers) (archive : Archive) :
    DiskProg Place PreparedSkillApply := do
  m.openStagingRoot skillId installLabels answers.unpack
  let platform ← onError (m.stageInstallPackage skillId answers archive)
    (removeDirAll answers.unpack.dropped .staged)
  let _ ← attempt (removeDirAll answers.cleanup .staged)
  let stamp ← lift answers.stamp
  let record := stagedRecord skillId archive stamp platform
  return .install ⟨appliedResult "installed" archive.message skillId archive record, record⟩

/-- A failed publication moves the backup back; when that fails too, the package stays away. -/
def publishStagedSkillUpdate (publish unpublish : IoAnswer) (target backup : String) :
    DiskProg Place Unit := do
  match ← attempt (rename publish .staged .package) with
  | .ok _ => return ()
  | .error e =>
    let message := "Failed to move updated skill into " ++ target ++ ": " ++ e
    match ← attempt (rename unpublish .backup .package) with
    | .ok _ => lift (.error message)
    | .error r => lift (.error (message ++ "; rollback failed to restore " ++ target ++ " from " ++
        backup ++ ": " ++ r ++ ". skill disk state is uncertain"))

def stageUpdatePackage (answers : UpdateAnswers) (archive : Archive) :
    DiskProg Place (Option String × String) := do
  let platform ← extractVerified skillId updateLabels answers.unpack archive
  let target := m.targetDir skillId
  if !(← skillPackageDirIsDirectory answers.target .package target) then
    lift (.error ("installed skill directory " ++ target ++ " does not exist"))
  let timestamp ← lift answers.clock
  let backup := m.stampedDir "update_backup" skillId timestamp
  mapErr (fun e => "Failed to create " ++ join m.lifecycleRoot "update_backup" ++ ": " ++ e)
    (createDirAll answers.parent)
  mapErr (fun e => "Failed to move current skill " ++ target ++ " into backup " ++ backup ++ ": " ++
    e) (rename answers.backup .package .backup)
  publishStagedSkillUpdate answers.publish answers.unpublish target backup
  return (platform, backup)

def stageSkillUpdateFromArchive (answers : UpdateAnswers) (archive : Archive)
    (previousRecord : InstalledSkillRecord) : DiskProg Place PreparedSkillApply := do
  m.openStagingRoot skillId updateLabels answers.unpack
  let (platform, backup) ← onError (m.stageUpdatePackage skillId answers archive)
    (removeDirAll answers.unpack.dropped .staged)
  let _ ← attempt (removeDirAll answers.cleanup .staged)
  let stamp ← lift answers.stamp
  let record := stagedRecord skillId archive stamp platform
  let message := "skill '" ++ skillId ++ "' was updated from version " ++ previousRecord.version ++
    " to " ++ archive.version
  return .update ⟨appliedResult "updated" message skillId archive record, backup, record,
    previousRecord⟩

/-! ## Requests -/

def alreadyInstalled : SkillApplyResult :=
  ⟨skillId, "already_installed",
    "skill already exists; use update to evaluate upgrade behavior", none, none, none, none⟩

def missingSkill : SkillApplyResult :=
  ⟨skillId, "missing_skill", "skill is not installed; use install first", none, none, none, none⟩

/-- `declared` tells whether a root already declares the skill, `resolution` what the source of the
request gives: an error or a downloaded archive. Neither touches the managed state. -/
def prepareInstallSkill (plane : SkillOperationPlane) (declared : Except String Bool)
    (resolution : Except String Archive) (answers : InstallAnswers) :
    DiskProg Place PreparedSkillApply := do
  lift (m.guardOperation plane .install skillId)
  if ← lift declared then return .immediate (alreadyInstalled skillId)
  else
    let archive ← lift resolution
    m.stageSkillInstallFromArchive skillId answers archive

/-- An update may also find that the installed version is current. -/
def prepareUpdateSkill (plane : SkillOperationPlane) (declared : Except String Bool)
    (resolution : InstalledSkillRecord → Except String (SkillApplyResult ⊕ Archive))
    (answers : UpdateAnswers) : DiskProg Place PreparedSkillApply := do
  lift (m.guardOperation plane .update skillId)
  if ← lift declared then
    let unmanaged := "skill '" ++ skillId ++
      "' is not managed by the install workflow; automatic update is unavailable"
    let found ← m.installRecord serde answers.record skillId
    let record ← lift (okOr found unmanaged)
    lift (refuseIf (record.managed = false) unmanaged)
    match ← lift (resolution record) with
    | .inl result => return .immediate result
    | .inr archive => m.stageSkillUpdateFromArchive skillId answers archive record
  else return .immediate (missingSkill skillId)

/-! ## Commit and rollback of an install or update -/

end SkillManager

structure CommitAnswers where
  record : PersistAnswers
  backup : IoAnswer
  removal : RemovalAnswer
  restore : PersistAnswers

structure RollbackAnswers where
  target : IoAnswer
  backup : IoAnswer
  removal : RemovalAnswer
  restore : IoAnswer

namespace SkillManager
variable (m : SkillManager) (serde : RecordSerde) (skillId : String)

/-- The previous record written back after `error` stopped the commit of an update. -/
def restorePrevious (answers : PersistAnswers) (previous : InstalledSkillRecord)
    (restored unrestored : String) : DiskProg Place SkillApplyResult := do
  match ← attempt (m.persistInstallRecord serde answers previous) with
  | .ok _ => lift (.error restored)
  | .error r => lift (.error (unrestored ++ ". Failed to restore previous install record: " ++ r))

def commitPreparedSkillApply (answers : CommitAnswers) :
    PreparedSkillApply → DiskProg Place SkillApplyResult
  | .immediate result => return result
  | .install prepared => do
    m.persistInstallRecord serde answers.record prepared.installRecord
    return prepared.result
  | .update prepared => do
    m.persistInstallRecord serde answers.record prepared.installRecord
    match ← attempt (skillPackageDirIsDirectory answers.backup .backup prepared.backupDir) with
    | .ok true =>
      match ← attempt (removeDirAll answers.removal .backup) with
      | .ok _ => return prepared.result
      | .error e =>
        let failed := "Failed to remove update backup " ++ prepared.backupDir
        m.restorePrevious serde answers.restore prepared.previousInstallRecord
          (failed ++ ": previous install record was restored: " ++ e) (failed ++ ": " ++ e)
    | .ok false => return prepared.result
    | .error e =>
      m.restorePrevious serde answers.restore prepared.previousInstallRecord
        (e ++ ": previous install record was restored") e

/-- Both directories are inspected before anything is removed. -/
def restorePackage (answers : RollbackAnswers) (removing restoring target backup : String) :
    DiskProg Place Unit := do
  let targetDirExists ← skillPackageDirIsDirectory answers.target .package target
  let backupDirExists ← skillPackageDirIsDirectory answers.backup .backup backup
  if targetDirExists then
    mapErr (fun e => removing ++ " " ++ target ++ ": " ++ e) (removeDirAll answers.removal .package)
  if backupDirExists then
    mapErr (fun e => restoring ++ " " ++ backup ++ " into " ++ target ++ ": " ++ e)
      (rename answers.restore .backup .package)

def rollbackPreparedSkillApply (answers : RollbackAnswers) :
    PreparedSkillApply → DiskProg Place Unit
  | .immediate _ => return ()
  | .install _ => do
    let target := m.targetDir skillId
    if ← skillPackageDirIsDirectory answers.target .package target then
      mapErr (fun e => "Failed to roll back installed skill directory " ++ target ++ ": " ++ e)
        (removeDirAll answers.removal .package)
  | .update prepared =>
    restorePackage answers "Failed to remove staged updated skill directory"
      "Failed to restore backup" (m.targetDir skillId) prepared.backupDir

end SkillManager

/-! ## Uninstall -/

structure UninstallAnswers where
  layout : LayoutAnswers
  disabled : ReadAnswers
  install : ReadAnswers
  target : IoAnswer
  clock : Except String ℕ
  parent : IoAnswer
  move : IoAnswer

structure CommitUninstallAnswers where
  disabled : RemoveAnswers
  install : RemoveAnswers
  removal : RemovalAnswer
  restoreDisabled : RestoreAnswers
  restoreInstall : RestoreAnswers

structure RollbackUninstallAnswers where
  package : RollbackAnswers
  disabled : RestoreAnswers
  install : RestoreAnswers

structure PreparedSkillUninstall where
  result : SkillUninstallResult
  backupDir : Option String
  previousDisabledRecord : Option DisabledSkillRecord
  previousInstallRecord : Option InstalledSkillRecord

namespace SkillManager
variable (m : SkillManager) (serde : RecordSerde) (skillId : String)

def uninstallResult (skillRemoved : Bool) : SkillUninstallResult :=
  ⟨skillId, skillRemoved,
    if skillRemoved then "skill package removed" else "skill package directory not found"⟩

def backUpForUninstall (answers : UninstallAnswers) : DiskProg Place (Option String) := do
  let skillDir := m.targetDir skillId
  if ← skillPackageDirIsDirectory answers.target .package skillDir then
    let timestamp ← lift answers.clock
    let backup := m.stampedDir "uninstall_backup" skillId timestamp
    mapErr (fun e => "Failed to create " ++ join m.lifecycleRoot "uninstall_backup" ++ ": " ++ e)
      (createDirAll answers.parent)
    mapErr (fun e => "Failed to move current skill " ++ skillDir ++ " into uninstall backup " ++
      backup ++ ": " ++ e) (rename answers.move .package .backup)
    return some backup
  else return none

def prepareUninstallSkillAtPathInPlane (plane : SkillOperationPlane) (skillDir : String)
    (answers : UninstallAnswers) : DiskProg Place PreparedSkillUninstall := do
  lift (m.guardOperation plane .uninstall skillId)
  lift (refuseIf (skillDir ≠ m.targetDir skillId) ("Refusing to uninstall skill '" ++ skillId ++
    "' from unmanaged directory " ++ skillDir ++ "; expected " ++ m.targetDir skillId))
  m.ensureStateLayout answers.layout
  let previousDisabled ← m.disabledRecord serde answers.disabled skillId
  let previousInstall ← m.installRecord serde answers.install skillId
  let backup ← m.backUpForUninstall skillId answers
  return ⟨uninstallResult skillId backup.isSome, backup, previousDisabled, previousInstall⟩

/-- What a failed removal of the uninstall backup is followed by. -/
def restoreRecords (answers : CommitUninstallAnswers) (prepared : PreparedSkillUninstall)
    (message : String) : DiskProg Place SkillUninstallResult := do
  let disabled ← attempt (m.restoreDisabledRecord serde answers.restoreDisabled
    prepared.result.skillId prepared.previousDisabledRecord)
  let install ← attempt (m.restoreInstallRecord serde answers.restoreInstall
    prepared.result.skillId prepared.previousInstallRecord)
  let addDisabled := match disabled with
    | .ok _ => ""
    | .error e => ". Failed to restore previous disabled record: " ++ e
  let addInstall := match install with
    | .ok _ => ""
    | .error e => ". Failed to restore previous install record: " ++ e
  lift (.error (message ++ addDisabled ++ addInstall))

/-- The removal of a record that the prepared uninstall found. -/
def dropRecord (present : Bool) (remove : DiskProg Place Bool) : DiskProg Place Unit := do
  if present then
    let _ ← remove

def commitPreparedSkillUninstall (answers : CommitUninstallAnswers)
    (prepared : PreparedSkillUninstall) : DiskProg Place SkillUninstallResult := do
  dropRecord prepared.previousDisabledRecord.isSome
    (m.removeDisabledRecord answers.disabled prepared.result.skillId)
  dropRecord prepared.previousInstallRecord.isSome
    (m.removeInstallRecord answers.install prepared.result.skillId)
  match prepared.backupDir with
  | none => return prepared.result
  | some backup =>
    match ← attempt (removeDirAll answers.removal .backup) with
    | .ok _ => return prepared.result
    | .error e =>
      m.restoreRecords serde answers prepared
        ("Failed to remove uninstall backup " ++ backup ++ ": " ++ e)

def rollbackPreparedSkillUninstall (answers : RollbackUninstallAnswers)
    (prepared : PreparedSkillUninstall) : DiskProg Place Unit := do
  match prepared.backupDir with
  | none => pure ()
  | some backup =>
    restorePackage answers.package "Failed to remove staged uninstall target directory"
      "Failed to restore uninstall backup" (m.targetDir skillId) backup
  m.restoreDisabledRecord serde answers.disabled prepared.result.skillId
    prepared.previousDisabledRecord
  m.restoreInstallRecord serde answers.install prepared.result.skillId
    prepared.previousInstallRecord

end SkillManager

/-! ## Changes -/

structure InstallChange where
  plane : SkillOperationPlane
  declared : Except String Bool
  resolution : Except String Archive
  prepare : InstallAnswers
  commit : CommitAnswers
  rollback : RollbackAnswers

structure UpdateChange where
  plane : SkillOperationPlane
  declared : Except String Bool
  resolution : InstalledSkillRecord → Except String (SkillApplyResult ⊕ Archive)
  prepare : UpdateAnswers
  commit : CommitAnswers
  rollback : RollbackAnswers

structure UninstallChange where
  plane : SkillOperationPlane
  skillDir : String
  prepare : UninstallAnswers
  commit : CommitUninstallAnswers
  rollback : RollbackUninstallAnswers

/-- One lifecycle change of a skill with every answer of its environment. -/
inductive Change where
  | install (change : InstallChange)
  | update (change : UpdateChange)
  | uninstall (change : UninstallChange)

/-- A package with its record, over the state before. -/
def applied (skillId : String) (archive : Archive) (entries : List (String × String)) (stamp : ℕ)
    (platform : Option String) (before : Managed) : Managed where
  package := some (.dir entries)
  install := .record (stagedRecord skillId archive stamp platform)
  disabled := before.disabled

/-- The state after an archive is staged and committed; the state before when there is none. -/
def staged (skillId : String) (archive : Option Archive) (unpack : UnpackAnswers)
    (stamp : Except String ℕ) (before : Managed) : Managed :=
  match archive, unpack.extracted, unpack.platform, stamp with
  | some archive, .ok entries, .ok platform, .ok stamp =>
    applied skillId archive entries stamp platform before
  | _, _, _, _ => before

def InstallChange.archive (c : InstallChange) : Option Archive :=
  match c.declared, c.resolution with
  | .ok false, .ok archive => some archive
  | _, _ => none

def UpdateChange.archive (c : UpdateChange) (record : RecordView InstalledSkillRecord) :
    Option Archive :=
  match c.declared, record with
  | .ok true, .record previous =>
    match c.resolution previous with
    | .ok (.inr archive) => some archive
    | _ => none
  | _, _ => none

def Change.next (skillId : String) (before : Managed) : Change → Managed
  | .install c => staged skillId c.archive c.prepare.unpack c.prepare.stamp before
  | .update c =>
    staged skillId (c.archive before.install) c.prepare.unpack c.prepare.stamp before
  | .uninstall _ => ⟨none, .missing, .missing⟩

/-- A transaction leaves the state before or the state after as a whole. -/
structure AllOrNothing {T R : Type} (view : Disk Place → Managed) (next : Managed → Managed)
    (prepare : DiskProg Place T) (commit : T → DiskProg Place R)
    (rollback : T → DiskProg Place Unit) (d : Disk Place) : Prop where
  prepare_error : ∀ e d₁, prepare d = (.error e, d₁) → view d₁ = view d
  commit_ok : ∀ t d₁ r d₂, prepare d = (.ok t, d₁) → commit t d₁ = (.ok r, d₂) →
    view d₂ = next (view d)
  rollback_ok : ∀ t d₁ e d₂ d₃, prepare d = (.ok t, d₁) → commit t d₁ = (.error e, d₂) →
    rollback t d₂ = (.ok (), d₃) → view d₃ = view d

/-- The change, made by the skill manager on this disk, is all or nothing. -/
def Change.Atomic (m : SkillManager) (serde : RecordSerde) (skillId : String) (d : Disk Place)
    (change : Change) : Prop :=
  match change with
  | .install c =>
    AllOrNothing (managed serde skillId) (fun before => Change.next skillId before change)
      (m.prepareInstallSkill skillId c.plane c.declared c.resolution c.prepare)
      (m.commitPreparedSkillApply serde c.commit) (m.rollbackPreparedSkillApply skillId c.rollback) d
  | .update c =>
    AllOrNothing (managed serde skillId) (fun before => Change.next skillId before change)
      (m.prepareUpdateSkill serde skillId c.plane c.declared c.resolution c.prepare)
      (m.commitPreparedSkillApply serde c.commit) (m.rollbackPreparedSkillApply skillId c.rollback) d
  | .uninstall c =>
    AllOrNothing (managed serde skillId) (fun before => Change.next skillId before change)
      (m.prepareUninstallSkillAtPathInPlane serde skillId c.plane c.skillDir c.prepare)
      (m.commitPreparedSkillUninstall serde c.commit)
      (m.rollbackPreparedSkillUninstall serde skillId c.rollback) d

end LuaSkills.Lifecycle
