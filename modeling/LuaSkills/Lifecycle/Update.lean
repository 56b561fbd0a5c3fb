import LuaSkills.Lifecycle.Install

/-!
# Updates

An update is all or nothing except when both renames of its publication fail, when the clock fails
after the publication of a different package, and when a commit fails such that the record file reads
differently from before or a part of the backup is gone: the rollback moves the backup back as it is
and leaves the record alone.
-/

namespace LuaSkills.Lifecycle

open Disk DiskProg Function SkillManager

variable {m : SkillManager} {serde : RecordSerde} {skillId : String} {d d' : Disk Place} {e : String}
  {previous : InstalledSkillRecord} {entries old left : List (String × String)} {node : Option DiskNode}

/-! ## The package moved back -/

structure RollbackAnswers.Clears (a : RollbackAnswers) (package : Option DiskNode) : Prop where
  target : a.target = .ok
  backup : a.backup = .ok
  removal : package = none ∨ a.removal = .ok
  restore : a.restore = .ok

section
variable {a : RollbackAnswers} {removing restoring target backup : String}
  {entries : List (String × String)}

theorem restorePackage_of_clears (hbackup : d .backup = some (.dir entries))
    (hpackage : ∀ node, d .package = some node → isDir node = true)
    (h : a.Clears (d .package)) :
    ∃ d', restorePackage a removing restoring target backup d = (.ok (), d') ∧
      d' .package = some (.dir entries) ∧ ∀ q, q ≠ .package → q ≠ .backup → d' q = d q := by
  have hprobe : skillPackageDirIsDirectory a.backup .backup backup d = (.ok true, d) :=
    probe_eq_true.2 ⟨h.backup, ⟨_, hbackup, rfl⟩, rfl⟩
  cases hnode : d .package with
  | none =>
    have hmove : rename a.restore .backup .package d = (.ok (), _) :=
      rename_eq_ok.2 ⟨h.restore, _, hbackup, .inl hnode, rfl⟩
    have htarget : skillPackageDirIsDirectory a.target .package target d = (.ok false, d) :=
      probe_eq_false.2 ⟨h.target, hnode, rfl⟩
    refine ⟨update (update d .backup none) .package (some (.dir entries)), ?_,
      update_self .., fun q hp hb => ?_⟩
    · rw [restorePackage, bind_of_ok htarget, bind_of_ok hprobe]
      simp only [Bool.false_eq_true, if_false, if_true]
      exact mapErr_eq_ok.2 hmove
    · rw [update_of_ne hp, update_of_ne hb]
  | some node =>
    have hdir := hpackage node hnode
    obtain ⟨current, rfl⟩ := isDir_iff.1 hdir
    have hremoval : a.removal = .ok := by
      rcases h.removal with hnone | hremoval
      · simp [hnode] at hnone
      · exact hremoval
    have hremove : removeDirAll a.removal .package d = (.ok (), _) :=
      removeDirAll_eq_ok.2 ⟨hremoval, ⟨current, hnode⟩, rfl⟩
    have hmove : rename a.restore .backup .package (update d .package none) = (.ok (), _) :=
      rename_eq_ok.2 ⟨h.restore, _, by simpa using hbackup, .inl (by simp), rfl⟩
    have htarget : skillPackageDirIsDirectory a.target .package target d = (.ok true, d) :=
      probe_eq_true.2 ⟨h.target, ⟨_, hnode, hdir⟩, rfl⟩
    refine ⟨update (update (update d .package none) .backup none)
      .package (some (.dir entries)), ?_, update_self .., fun q hp hb => ?_⟩
    · rw [restorePackage, bind_of_ok htarget, bind_of_ok hprobe]
      simp only [if_true]
      rw [bind_of_ok (mapErr_eq_ok.2 hremove)]
      exact mapErr_eq_ok.2 hmove
    · rw [update_of_ne hp, update_of_ne hb, update_of_ne hp]

theorem clears_of_restorePackage (hbackup : d .backup = some (.dir entries))
    (h : restorePackage a removing restoring target backup d = (.ok (), d')) :
    a.Clears (d .package) ∧ ∀ node, d .package = some node → isDir node = true := by
  simp only [restorePackage, bind_eq_ok] at h
  obtain ⟨found, d₁, hp, kept, d₂, hb, h⟩ := h
  have hkept : kept = true := by
    cases kept with
    | true => rfl
    | false =>
      obtain ⟨-, hnone, -⟩ := probe_eq_false.1 hb
      cases found with
      | true => obtain ⟨-, -, rfl⟩ := probe_eq_true.1 hp; simp [hbackup] at hnone
      | false => obtain ⟨-, -, rfl⟩ := probe_eq_false.1 hp; simp [hbackup] at hnone
  subst hkept
  obtain ⟨hkeep, -, rfl⟩ := probe_eq_true.1 hb
  cases found with
  | false =>
    obtain ⟨htarget, hnone, rfl⟩ := probe_eq_false.1 hp
    simp only [Bool.false_eq_true, if_false, if_true, mapErr_eq_ok, rename_eq_ok] at h
    exact ⟨⟨htarget, hkeep, .inl hnone, h.1⟩, by simp [hnone]⟩
  | true =>
    obtain ⟨htarget, ⟨node, hnode, hdir⟩, rfl⟩ := probe_eq_true.1 hp
    simp only [if_true, bind_eq_ok, mapErr_eq_ok, rename_eq_ok, removeDirAll_eq_ok] at h
    obtain ⟨_, _, ⟨hremoval, -⟩, hrestore, -⟩ := h
    exact ⟨⟨htarget, hkeep, .inr hremoval, hrestore⟩, by simp [hnode, hdir]⟩

end

/-! ## Commit -/

section
variable {a : CommitAnswers} {prepared : PreparedSkillUpdate} {old : List (String × String)}

/-- The disk after the previous record was written back, successfully or not. -/
def writtenBack (serde : RecordSerde) (a : PersistAnswers) (previous : InstalledSkillRecord)
    (d : Disk Place) : Disk Place :=
  update d (.install previous.skillId)
    (a.leaves (d (.install previous.skillId)) (serde.renderInstall previous))

variable (m serde d) in
theorem restorePrevious_apply (p : PersistAnswers) (previous : InstalledSkillRecord)
    (restored unrestored : String) :
    ∃ e, m.restorePrevious serde p previous restored unrestored d =
      (.error e, writtenBack serde p previous d) := by
  have hsnd : (m.persistInstallRecord serde p previous d).2 = writtenBack serde p previous d :=
    persistRecord_snd ..
  unfold restorePrevious
  rw [bind_of_ok (attempt_eq.2 rfl), hsnd]
  cases (m.persistInstallRecord serde p previous d).1 with
  | ok u | error r => exact ⟨_, rfl⟩

def recorded (serde : RecordSerde) (record : InstalledSkillRecord) (d : Disk Place) : Disk Place :=
  update d (.install record.skillId) (some (.file (serde.renderInstall record)))

variable (m serde a prepared) in
theorem commit_update_cases (hbackup : d .backup = some (.dir old)) :
    (a.record.Writes (d (.install prepared.installRecord.skillId)) ∧ a.backup = .ok ∧
      a.removal = .ok ∧ m.commitPreparedSkillApply serde a (.update prepared) d =
        (.ok prepared.result,
          update (recorded serde prepared.installRecord d) .backup none)) ∨
    (¬ a.record.Writes (d (.install prepared.installRecord.skillId)) ∧
      ∃ e, m.commitPreparedSkillApply serde a (.update prepared) d =
        (.error e, update d (.install prepared.installRecord.skillId)
          (a.record.leaves (d (.install prepared.installRecord.skillId))
            (serde.renderInstall prepared.installRecord)))) ∨
    (a.record.Writes (d (.install prepared.installRecord.skillId)) ∧ a.backup ≠ .ok ∧
      ∃ e, m.commitPreparedSkillApply serde a (.update prepared) d =
        (.error e, writtenBack serde a.restore prepared.previousInstallRecord
          (recorded serde prepared.installRecord d))) ∨
    (a.record.Writes (d (.install prepared.installRecord.skillId)) ∧ a.backup = .ok ∧
      ∃ kept error, a.removal = .fail kept error ∧
      ∃ e, m.commitPreparedSkillApply serde a (.update prepared) d =
        (.error e, writtenBack serde a.restore prepared.previousInstallRecord
          (update (recorded serde prepared.installRecord d) .backup
            (some (.dir (pruned kept old)))))) := by
  by_cases hwrites : a.record.Writes (d (.install prepared.installRecord.skillId))
  · have hpersist : m.persistInstallRecord serde a.record prepared.installRecord d =
        (.ok (), recorded serde prepared.installRecord d) :=
      persistInstallRecord_eq_ok.2 ⟨hwrites, rfl⟩
    have hkept : recorded serde prepared.installRecord d .backup = some (.dir old) := by
      simpa [recorded] using hbackup
    simp only [commitPreparedSkillApply]
    rw [bind_of_ok hpersist, bind_of_ok (attempt_eq.2 rfl)]
    cases hprobe : a.backup with
    | fail error =>
      have hfail : ∃ e, skillPackageDirIsDirectory (.fail error) .backup prepared.backupDir
          (recorded serde prepared.installRecord d) =
            (.error e, recorded serde prepared.installRecord d) := ⟨_, rfl⟩
      obtain ⟨e₀, he₀⟩ := hfail
      obtain ⟨e, he⟩ := restorePrevious_apply m serde (recorded serde prepared.installRecord d)
        a.restore prepared.previousInstallRecord (e₀ ++ ": previous install record was restored") e₀
      rw [he₀]
      exact .inr (.inr (.inl ⟨hwrites, by rintro ⟨⟩, e, he⟩))
    | ok =>
      rw [show skillPackageDirIsDirectory .ok .backup prepared.backupDir
        (recorded serde prepared.installRecord d) = (.ok true, _) from
          probe_eq_true.2 ⟨rfl, ⟨_, hkept, rfl⟩, rfl⟩]
      dsimp only
      rw [bind_of_ok (attempt_eq.2 rfl)]
      cases hremoval : a.removal with
      | ok =>
        rw [show removeDirAll .ok Place.backup (recorded serde prepared.installRecord d) = (.ok (), _)
          from removeDirAll_eq_ok.2 ⟨rfl, ⟨old, hkept⟩, rfl⟩]
        exact .inl ⟨hwrites, rfl, rfl, rfl⟩
      | fail kept error =>
        rw [show removeDirAll (.fail kept error) Place.backup
          (recorded serde prepared.installRecord d) = (.error error, _) from
            (removeDirAll_error hkept).2 ⟨kept, rfl, rfl⟩]
        obtain ⟨e, he⟩ := restorePrevious_apply m serde
          (update (recorded serde prepared.installRecord d) .backup
            (some (.dir (pruned kept old)))) a.restore prepared.previousInstallRecord
          ("Failed to remove update backup " ++ prepared.backupDir ++
            ": previous install record was restored: " ++ error)
          ("Failed to remove update backup " ++ prepared.backupDir ++ ": " ++ error)
        exact .inr (.inr (.inr ⟨hwrites, rfl, kept, error, rfl, e, he⟩))
  · obtain ⟨e, hpersist⟩ := (persistInstallRecord_eq_error m serde d _ a.record
      prepared.installRecord).2 ⟨hwrites, rfl⟩
    simp only [commitPreparedSkillApply]
    exact .inr (.inl ⟨hwrites, e, bind_of_error hpersist⟩)

end

/-! ## Schedules that break an update -/

/-- The package `old` of the record `previous` reaches its backup, with a new one staged. -/
structure UpdateChange.Stages (c : UpdateChange) (m : SkillManager) (serde : RecordSerde)
    (skillId : String) (d : Disk Place) (previous : InstalledSkillRecord) (archive : Archive)
    (entries : List (String × String)) (platform : Option String) (old : List (String × String)) :
    Prop where
  guarded : m.guardOperation c.plane .update skillId = .ok ()
  declared : c.declared = .ok true
  probed : c.prepare.record.probe = .ok
  read : c.prepare.record.read = .ok
  recorded : recordView serde.parseInstall (d (.install skillId)) = .record previous
  managed : previous.managed = true
  resolved : c.resolution previous = .ok (.inr archive)
  opens : c.prepare.unpack.Opens d
  backsUp : c.prepare.BacksUp skillId archive entries platform old d

/-- The update is prepared: the new package is in its place and its record is stamped. -/
structure UpdateChange.Prepares (c : UpdateChange) (m : SkillManager) (serde : RecordSerde)
    (skillId : String) (d : Disk Place) (previous record : InstalledSkillRecord)
    (entries old : List (String × String)) : Prop where
  published : c.prepare.publish = .ok
  staged : ∃ archive platform stamp, c.Stages m serde skillId d previous archive entries platform old ∧
    c.prepare.stamp = .ok stamp ∧ record = stagedRecord skillId archive stamp platform

/-- What the record file holds when the commit stops after the new record was written. The previous
record is filed under the skill id in its own text. -/
def UpdateChange.recordLeft (c : UpdateChange) (serde : RecordSerde) (skillId : String)
    (previous record : InstalledSkillRecord) : Option DiskNode :=
  let written := some (DiskNode.file (serde.renderInstall record))
  if previous.skillId = skillId then
    c.commit.restore.leaves written (serde.renderInstall previous)
  else written

inductive UpdateChange.Broken (c : UpdateChange) (m : SkillManager) (serde : RecordSerde)
    (skillId : String) (d : Disk Place) : Prop where
  /-- Neither the new package nor the old one can be moved to the package's place. -/
  | stranded {previous archive entries platform old} :
    c.Stages m serde skillId d previous archive entries platform old →
    c.prepare.publish ≠ .ok → c.prepare.unpublish ≠ .ok → Broken c m serde skillId d
  /-- The clock fails after a different package was published. -/
  | unstamped {previous archive entries platform old error} :
    c.Stages m serde skillId d previous archive entries platform old →
    c.prepare.publish = .ok → c.prepare.stamp = .error error → entries ≠ old →
    Broken c m serde skillId d
  /-- A failed write leaves a record file that reads differently, and the rollback succeeds. -/
  | torn {previous record entries old} :
    c.Prepares m serde skillId d previous record entries old →
    ¬ c.commit.record.Writes (d (.install skillId)) →
    recordView serde.parseInstall (c.commit.record.leaves (d (.install skillId))
      (serde.renderInstall record)) ≠ .record previous →
    c.rollback.Clears (some (.dir entries)) → Broken c m serde skillId d
  /-- The backup cannot be inspected or removed, the previous record is not written back, and the
  rollback succeeds. -/
  | unrestored {previous record entries old} :
    c.Prepares m serde skillId d previous record entries old →
    c.commit.record.Writes (d (.install skillId)) →
    (c.commit.backup ≠ .ok ∨ c.commit.removal ≠ .ok) →
    recordView serde.parseInstall (c.recordLeft serde skillId previous record) ≠ .record previous →
    c.rollback.Clears (some (.dir entries)) → Broken c m serde skillId d
  /-- The failed removal of the backup removed a part of it, and the rollback succeeds. -/
  | pruned {previous record entries old kept error} :
    c.Prepares m serde skillId d previous record entries old →
    c.commit.record.Writes (d (.install skillId)) → c.commit.backup = .ok →
    c.commit.removal = .fail kept error → Disk.pruned kept old ≠ old →
    c.rollback.Clears (some (.dir entries)) → Broken c m serde skillId d

variable {c : UpdateChange}

theorem prepareUpdateSkill_of_stages (h : c.Stages m serde skillId d previous archive entries platform old) :
    m.prepareUpdateSkill serde skillId c.plane c.declared c.resolution c.prepare d =
      m.stageSkillUpdateFromArchive skillId c.prepare archive previous d := by
  have hread : m.installRecord serde c.prepare.record skillId d = (.ok (some previous), d) := by
    rw [installRecord,
      bind_of_ok (lift_eq_ok.2 ⟨guardOperation_eq_ok h.guarded, rfl⟩)]
    exact readRecord_eq_ok.2 ⟨h.probed, rfl, h.read, h.recorded⟩
  rw [prepareUpdateSkill, bind_of_ok (lift_eq_ok.2 ⟨h.guarded, rfl⟩),
    bind_of_ok (lift_eq_ok.2 ⟨h.declared, rfl⟩)]
  simp only [if_true]
  rw [bind_of_ok hread, bind_of_ok (lift_eq_ok.2 ⟨okOr_some, rfl⟩),
    bind_of_ok (lift_eq_ok.2 ⟨refuseIf_of_not (by simp [h.managed]), rfl⟩),
    bind_of_ok (lift_eq_ok.2 ⟨h.resolved, rfl⟩)]

variable (m serde skillId d c) in
/-- Before the archive is staged an update changes nothing. -/
theorem prepareUpdateSkill_cases :
    (∃ previous archive, m.guardOperation c.plane .update skillId = .ok () ∧
      c.declared = .ok true ∧ c.prepare.record.probe = .ok ∧ c.prepare.record.read = .ok ∧
      recordView serde.parseInstall (d (.install skillId)) = .record previous ∧
      previous.managed = true ∧ c.resolution previous = .ok (.inr archive) ∧
      m.prepareUpdateSkill serde skillId c.plane c.declared c.resolution c.prepare d =
        m.stageSkillUpdateFromArchive skillId c.prepare archive previous d) ∨
    (c.archive (recordView serde.parseInstall (d (.install skillId))) = none ∧ ∃ result,
      m.prepareUpdateSkill serde skillId c.plane c.declared c.resolution c.prepare d =
        (.ok (.immediate result), d)) ∨
    (∃ e, m.prepareUpdateSkill serde skillId c.plane c.declared c.resolution c.prepare d =
      (.error e, d)) := by
  unfold prepareUpdateSkill
  cases hguard : m.guardOperation c.plane .update skillId with
  | error e => exact .inr (.inr ⟨e, rfl⟩)
  | ok u =>
    rw [bind_of_ok (lift_eq_ok.2 ⟨rfl, rfl⟩)]
    cases hdeclared : c.declared with
    | error e => exact .inr (.inr ⟨e, rfl⟩)
    | ok declared =>
      rw [bind_of_ok (lift_eq_ok.2 ⟨rfl, rfl⟩)]
      cases declared with
      | false =>
        exact .inr (.inl ⟨by simp [UpdateChange.archive, hdeclared], _, rfl⟩)
      | true =>
        simp only [if_true]
        rcases hread : m.installRecord serde c.prepare.record skillId d with ⟨e | found, d₁⟩
        · have hd : d₁ = d := by
            rw [installRecord,
              bind_of_ok (lift_eq_ok.2 ⟨guardOperation_eq_ok hguard, rfl⟩)] at hread
            exact readRecord_error hread
          subst hd
          exact .inr (.inr ⟨e, bind_of_error hread⟩)
        · rw [bind_of_ok hread]
          rw [installRecord,
            bind_of_ok (lift_eq_ok.2 ⟨guardOperation_eq_ok hguard, rfl⟩)] at hread
          obtain ⟨hprobed, rfl, hfound⟩ := readRecord_eq_ok.1 hread
          cases found with
          | none => exact .inr (.inr ⟨_, rfl⟩)
          | some previous =>
            obtain ⟨hreads, hview⟩ := hfound
            rw [bind_of_ok (lift_eq_ok.2 ⟨okOr_some, rfl⟩)]
            cases hmanaged : previous.managed with
            | false => exact .inr (.inr ⟨_, rfl⟩)
            | true =>
              rw [bind_of_ok (lift_eq_ok.2 ⟨refuseIf_of_not (by simp), rfl⟩)]
              cases hresolution : c.resolution previous with
              | error e => exact .inr (.inr ⟨e, rfl⟩)
              | ok resolved =>
                rw [bind_of_ok (lift_eq_ok.2 ⟨rfl, rfl⟩)]
                cases resolved with
                | inl result =>
                  refine .inr (.inl ⟨?_, result, rfl⟩)
                  simp [UpdateChange.archive, hdeclared, hview, hresolution]
                | inr archive =>
                  exact .inl ⟨previous, archive, trivial, trivial, hprobed, hreads, hview, hmanaged,
                    hresolution, rfl⟩

theorem UpdateChange.Stages.eq
    {archive archive' : Archive} {entries' : List (String × String)}
    {platform platform' : Option String} {old' : List (String × String)}
    (h : c.Stages m serde skillId d previous archive entries platform old)
    (hback : c.prepare.BacksUp skillId archive' entries' platform' old' d) :
    entries' = entries ∧ platform' = platform ∧ old' = old := by
  cases h.backsUp.verifies.extracted.symm.trans hback.verifies.extracted
  cases h.backsUp.verifies.platform.symm.trans hback.verifies.platform
  cases h.backsUp.installed.symm.trans hback.installed
  exact ⟨rfl, rfl, rfl⟩

section
variable {previous record : InstalledSkillRecord} {entries old : List (String × String)}

theorem prepareUpdateSkill_of_prepares (h : c.Prepares m serde skillId d previous record entries old) :
    ∃ prepared d₁, prepared.installRecord = record ∧ prepared.previousInstallRecord = previous ∧
      d₁ .package = some (.dir entries) ∧ d₁ .backup = some (.dir old) ∧
      (∀ q, q ≠ .staged → q ≠ .package → q ≠ .backup → d₁ q = d q) ∧
      m.prepareUpdateSkill serde skillId c.plane c.declared c.resolution c.prepare d =
        (.ok (.update prepared), d₁) := by
  obtain ⟨hpublished, archive, platform, stamp, hstages, hstamp, rfl⟩ := h
  rw [prepareUpdateSkill_of_stages hstages]
  rcases stageSkillUpdateFromArchive_cases d m skillId archive c.prepare previous with
    ⟨entries', platform', old', backup, d₁, -, hback, -, hpackage, hbackup, hframe, hstage⟩ |
    ⟨_, _, _, _, _, _, _, hunpublished, -⟩ | ⟨_, _, _, _, hnot⟩
  · obtain ⟨rfl, rfl, rfl⟩ := hstages.eq hback
    rw [hstamp] at hstage
    exact ⟨_, d₁, rfl, rfl, hpackage, hbackup, hframe, hstage⟩
  · exact absurd hpublished hunpublished
  · exact absurd hpublished (hnot _ _ _ hstages.opens hstages.backsUp).1

theorem UpdateChange.Prepares.skillId_eq
    (h : c.Prepares m serde skillId d previous record entries old) : record.skillId = skillId := by
  obtain ⟨-, _, _, _, -, -, rfl⟩ := h
  rfl

theorem UpdateChange.Prepares.recorded
    (h : c.Prepares m serde skillId d previous record entries old) :
    recordView serde.parseInstall (d (.install skillId)) = .record previous := by
  obtain ⟨-, _, _, _, hstages, -⟩ := h
  exact hstages.recorded

theorem UpdateChange.Prepares.installed
    (h : c.Prepares m serde skillId d previous record entries old) :
    d .package = some (.dir old) := by
  obtain ⟨-, _, _, _, hstages, -⟩ := h
  exact hstages.backsUp.installed

variable (m skillId) in
/-- The rollback of an update moves back what the commit left of the backup. -/
theorem rollback_update (prepared : PreparedSkillUpdate)
    (hpackage : d .package = some (.dir entries)) (hbackup : d .backup = some (.dir left))
    (h : c.rollback.Clears (some (.dir entries))) :
    ∃ d', m.rollbackPreparedSkillApply skillId c.rollback (.update prepared) d = (.ok (), d') ∧
      d' .package = some (.dir left) ∧ ∀ q, q ≠ .package → q ≠ .backup → d' q = d q :=
  restorePackage_of_clears hbackup (by simp [hpackage, isDir]) (by rwa [hpackage])

theorem clears_of_rollback_update (hpackage : d .package = some (.dir entries))
    (hbackup : d .backup = some (.dir left))
    (h : m.rollbackPreparedSkillApply skillId c.rollback (.update prepared) d = (.ok (), d')) :
    c.rollback.Clears (some (.dir entries)) := by
  have hclears := (clears_of_restorePackage hbackup h).1
  rwa [hpackage] at hclears

theorem recordLeft_eq (hwritten : d (.install skillId) = some (.file (serde.renderInstall record))) :
    writtenBack serde c.commit.restore previous d (.install skillId) =
      c.recordLeft serde skillId previous record := by
  unfold writtenBack UpdateChange.recordLeft
  by_cases hid : previous.skillId = skillId
  · simp [hid, hwritten]
  · have hne : Place.install skillId ≠ .install previous.skillId :=
      fun h => hid (Place.install.inj h).symm
    simp [hid, hne, hwritten]

inductive UpdateChange.CommitFails (c : UpdateChange) (serde : RecordSerde) (skillId : String)
    (node : Option DiskNode) (previous record : InstalledSkillRecord)
    (old : List (String × String)) : Option DiskNode → List (String × String) → Prop where
  | torn : ¬ c.commit.record.Writes node → CommitFails c serde skillId node previous record old
      (c.commit.record.leaves node (serde.renderInstall record)) old
  | uninspected : c.commit.record.Writes node → c.commit.backup ≠ .ok →
      CommitFails c serde skillId node previous record old
        (c.recordLeft serde skillId previous record) old
  | unremoved {kept error} : c.commit.record.Writes node → c.commit.backup = .ok →
      c.commit.removal = .fail kept error →
      CommitFails c serde skillId node previous record old
        (c.recordLeft serde skillId previous record) (Disk.pruned kept old)

variable (m serde c skillId) in
theorem commit_update {prepared : PreparedSkillUpdate} (hid : prepared.installRecord.skillId = skillId)
    (hpackage : d .package = some (.dir entries)) (hbackup : d .backup = some (.dir old)) :
    (∃ d', m.commitPreparedSkillApply serde c.commit (.update prepared) d =
        (.ok prepared.result, d') ∧ c.commit.record.Writes (d (.install skillId)) ∧
      c.commit.backup = .ok ∧ c.commit.removal = .ok ∧ d' .package = some (.dir entries) ∧
      d' (.install skillId) = some (.file (serde.renderInstall prepared.installRecord)) ∧
      d' (.disabled skillId) = d (.disabled skillId)) ∨
    (∃ e d' node left, m.commitPreparedSkillApply serde c.commit (.update prepared) d =
        (.error e, d') ∧ d' .package = some (.dir entries) ∧ d' .backup = some (.dir left) ∧
      d' (.install skillId) = node ∧ d' (.disabled skillId) = d (.disabled skillId) ∧
      c.CommitFails serde skillId (d (.install skillId)) prepared.previousInstallRecord
        prepared.installRecord old node left) := by
  subst hid
  rcases commit_update_cases m serde c.commit prepared hbackup with ⟨hw, hb, hr, hx⟩ | ⟨hw, e, hx⟩ | ⟨hw, hb, e, hx⟩ | ⟨hw, hb, kept, error, hr, e, hx⟩
  · exact .inl ⟨_, hx, hw, hb, hr, by simpa [recorded] using hpackage, by simp [recorded],
      by simp [recorded]⟩
  · exact .inr ⟨e, _, _, old, hx, by simpa using hpackage, by simpa using hbackup, by simp,
      by simp, .torn hw⟩
  · exact .inr ⟨e, _, _, old, hx, by simpa [writtenBack, recorded] using hpackage,
      by simpa [writtenBack, recorded] using hbackup, recordLeft_eq (by simp [recorded]),
      by simp [writtenBack, recorded], .uninspected hw hb⟩
  · exact .inr ⟨e, _, _, Disk.pruned kept old, hx, by simpa [writtenBack, recorded] using hpackage,
      by simp [writtenBack], recordLeft_eq (by simp [recorded]), by simp [writtenBack, recorded],
      .unremoved hw hb hr⟩

theorem UpdateChange.CommitFails.unique
    (h : c.CommitFails serde skillId node previous record old node' left)
    (h' : c.CommitFails serde skillId node previous record old node'' left') :
    node'' = node' ∧ left' = left := by
  cases h with
  | torn hw =>
    cases h' with
    | torn => exact ⟨rfl, rfl⟩
    | uninspected hw' => exact absurd hw' hw
    | unremoved hw' => exact absurd hw' hw
  | uninspected hw hb =>
    cases h' with
    | torn hw' => exact absurd hw hw'
    | uninspected => exact ⟨rfl, rfl⟩
    | unremoved _ hb' => exact absurd hb' hb
  | unremoved hw hb hr =>
    cases h' with
    | torn hw' => exact absurd hw hw'
    | uninspected _ hb' => exact absurd hb hb'
    | unremoved _ _ hr' =>
      cases hr.symm.trans hr'
      exact ⟨rfl, rfl⟩

/-- After a failed commit and a successful rollback: the record that the commit left and the backup
as it left it. -/
theorem rolled_back_update (h : c.Prepares m serde skillId d previous record entries old)
    (hfails : c.CommitFails serde skillId (d (.install skillId)) previous record old node left)
    (hclears : c.rollback.Clears (some (.dir entries)))
    (hatomic : (Change.update c).Atomic m serde skillId d) :
    recordView serde.parseInstall node = .record previous ∧ left = old := by
  obtain ⟨prepared, d₁, rfl, rfl, hpackage, hbackup, hframe, hprepare⟩ :=
    prepareUpdateSkill_of_prepares h
  have hrecord : d₁ (.install skillId) = d (.install skillId) := hframe _ nofun nofun nofun
  rcases commit_update m serde skillId c h.skillId_eq hpackage hbackup with
    ⟨d₂, hcommit, hw, hb, hr, -⟩ | ⟨e, d₂, node', left', hcommit, hp, hbk, hn, hd, hfails'⟩
  · rw [hrecord] at hw
    cases hfails with
    | torn hnot => exact absurd hw hnot
    | uninspected _ hnot => exact absurd hb hnot
    | unremoved _ _ hfail => simp [hr] at hfail
  · rw [hrecord] at hfails'
    obtain ⟨rfl, rfl⟩ := hfails.unique hfails'
    obtain ⟨d₃, hrollback, hp₃, hframe₃⟩ := rollback_update m skillId prepared hp hbk
      hclears
    have hsame := hatomic.rollback_ok _ _ _ _ _ hprepare hcommit hrollback
    have hi := congrArg Managed.install hsame
    have hpk := congrArg Managed.package hsame
    simp only [managed, hp₃, hframe₃ (.install skillId) nofun nofun, hn, h.recorded,
      h.installed] at hi hpk
    exact ⟨hi, by simpa using hpk⟩

end

/-- A failed commit that a successful rollback undoes, unless the schedule is a broken one. -/
theorem not_broken_of_commitFails (h : ¬ c.Broken m serde skillId d)
    (hprepares : c.Prepares m serde skillId d previous record entries old)
    (hclears : c.rollback.Clears (some (.dir entries)))
    (hfails : c.CommitFails serde skillId (d (.install skillId)) previous record old node left) :
    recordView serde.parseInstall node = .record previous ∧ left = old := by
  cases hfails with
  | torn hw => exact ⟨not_not.1 fun hne => h (.torn hprepares hw hne hclears), rfl⟩
  | uninspected hw hb =>
    exact ⟨not_not.1 fun hne => h (.unrestored hprepares hw (.inl hb) hne hclears), rfl⟩
  | unremoved hw hb hr =>
    exact ⟨not_not.1 fun hne => h (.unrestored hprepares hw (.inr (by simp [hr])) hne hclears),
      not_not.1 fun hne => h (.pruned hprepares hw hb hr hne hclears)⟩

theorem update_not_atomic (h : c.Broken m serde skillId d) :
    ¬ (Change.update c).Atomic m serde skillId d := by
  intro hatomic
  cases h with
  | @stranded previous archive entries platform old hstages hpublish hunpublish =>
    have hprepare := prepareUpdateSkill_of_stages hstages
    rcases stageSkillUpdateFromArchive_cases d m skillId archive c.prepare previous with
      ⟨_, _, _, _, _, -, -, hpublished, -⟩ | ⟨_, _, _, e, d', -, -, -, -, hstage, hpackage⟩ |
      ⟨_, _, _, _, hnot⟩
    · exact hpublish hpublished
    · have hsame := congrArg Managed.package (hatomic.prepare_error e d' (hprepare.trans hstage))
      simp [managed, hpackage, hstages.backsUp.installed] at hsame
    · exact hunpublish (hnot _ _ _ hstages.opens hstages.backsUp).2
  | @unstamped previous archive entries platform old error hstages hpublish hstamp hne =>
    have hprepare := prepareUpdateSkill_of_stages hstages
    rcases stageSkillUpdateFromArchive_cases d m skillId archive c.prepare previous with
      ⟨_, _, _, _, d', -, hback, -, hpackage, -, -, hstage⟩ | ⟨_, _, _, _, _, _, _, hnot, -⟩ |
      ⟨_, _, _, _, hnot⟩
    · obtain ⟨rfl, rfl, rfl⟩ := hstages.eq hback
      rw [hstamp] at hstage
      have hsame := congrArg Managed.package (hatomic.prepare_error _ d' (hprepare.trans hstage))
      simp only [managed, hpackage, hstages.backsUp.installed] at hsame
      exact hne (by simpa using hsame)
    · exact hnot hpublish
    · exact (hnot _ _ _ hstages.opens hstages.backsUp).1 hpublish
  | torn hprepares hwrites hview hclears =>
    exact hview (rolled_back_update hprepares (.torn hwrites) hclears hatomic).1
  | unrestored hprepares hwrites hfail hview hclears =>
    by_cases hb : c.commit.backup = .ok
    · cases hr : c.commit.removal with
      | ok => exact hfail.elim (absurd hb) (absurd hr)
      | fail kept error =>
        exact hview (rolled_back_update hprepares (.unremoved hwrites hb hr) hclears hatomic).1
    · exact hview (rolled_back_update hprepares (.uninspected hwrites hb) hclears hatomic).1
  | pruned hprepares hwrites hb hr hne hclears =>
    exact hne (rolled_back_update hprepares (.unremoved hwrites hb hr) hclears hatomic).2

/-- The serializer restores the record that the update writes. -/
def UpdateChange.Restores (c : UpdateChange) (serde : RecordSerde) (skillId : String)
    (d : Disk Place) : Prop :=
  ∀ previous archive stamp platform,
    recordView serde.parseInstall (d (.install skillId)) = .record previous →
    c.resolution previous = .ok (.inr archive) → c.prepare.stamp = .ok stamp →
    c.prepare.unpack.platform = .ok platform →
      serde.RestoresInstall (stagedRecord skillId archive stamp platform)

theorem update_atomic_of_prepares (h : ¬ c.Broken m serde skillId d)
    (hprepares : c.Prepares m serde skillId d previous record entries old)
    (hparse : serde.RestoresInstall record)
    (hnext : Change.next skillId (managed serde skillId d) (.update c) =
      ⟨some (.dir entries), .record record, (managed serde skillId d).disabled⟩) :
    (Change.update c).Atomic m serde skillId d := by
  obtain ⟨prepared, d₁, rfl, rfl, hpackage, hbackup, hframe, hprepare⟩ :=
    prepareUpdateSkill_of_prepares hprepares
  have hrecord : d₁ (.install skillId) = d (.install skillId) := hframe _ nofun nofun nofun
  have hdisabled : d₁ (.disabled skillId) = d (.disabled skillId) := hframe _ nofun nofun nofun
  refine .of_ok hprepare (fun result d₂ hcommit => ?_) fun e d₂ d₃ hcommit hrollback => ?_
  · rcases commit_update m serde skillId c hprepares.skillId_eq hpackage hbackup with
      ⟨d', hx, -, -, -, hp, hi, hd⟩ | ⟨e, d', _, _, hx, -⟩
    · rw [hx] at hcommit
      cases hcommit
      have hi' : recordView serde.parseInstall (d₂ (.install skillId)) =
          .record prepared.installRecord := by
        rw [hi]
        exact recordView_render hparse
      rw [hnext]
      exact Managed.ext hp hi' (by simp [managed, hd, hdisabled])
    · rw [hx] at hcommit
      cases hcommit
  · rcases commit_update m serde skillId c hprepares.skillId_eq hpackage hbackup with
      ⟨d', hx, -⟩ | ⟨e, d', node, left, hx, hp, hb, hn, hd, hfails⟩
    · rw [hx] at hcommit
      cases hcommit
    · rw [hx] at hcommit
      cases hcommit
      have hclears := clears_of_rollback_update hp hb hrollback
      obtain ⟨d₃', hrollback', hp₃, hframe₃⟩ := rollback_update m skillId prepared hp hb hclears
      rw [hrollback'] at hrollback
      cases hrollback
      rw [hrecord] at hfails
      obtain ⟨hsame, rfl⟩ := not_broken_of_commitFails h hprepares hclears hfails
      refine Managed.ext ?_ ?_ ?_
      · simp [managed, hp₃, hprepares.installed]
      · simp [managed, hframe₃, hn, hsame, hprepares.recorded]
      · simp [managed, hframe₃, hd, hdisabled]

theorem update_atomic (hserde : c.Restores serde skillId d) (h : ¬ c.Broken m serde skillId d) :
    (Change.update c).Atomic m serde skillId d := by
  rcases prepareUpdateSkill_cases m serde skillId d c
    with ⟨previous, archive, hguard, hdeclared, hprobed, hread, hview, hmanaged, hresolved, hprepare⟩ |
      ⟨hnone, result, hprepare⟩ | ⟨e, hprepare⟩
  · rcases stageSkillUpdateFromArchive_cases d m skillId archive c.prepare previous with
      ⟨entries, platform, old, backup, d₁, hopens, hback, hpublish, hpackage, hbackup, hframe,
        hstage⟩ |
      ⟨entries, platform, old, e, d', hopens, hback, hpublish, hunpublish, -, -⟩ |
      ⟨e, d', hstage, hframe, -⟩
    · have hstages : c.Stages m serde skillId d previous archive entries platform old :=
        ⟨hguard, hdeclared, hprobed, hread, hview, hmanaged, hresolved, hopens, hback⟩
      have hrecord : d₁ (.install skillId) = d (.install skillId) := hframe _ nofun nofun nofun
      have hdisabled : d₁ (.disabled skillId) = d (.disabled skillId) := hframe _ nofun nofun nofun
      cases hstamp : c.prepare.stamp with
      | error e =>
        rw [hstamp] at hstage
        have heq : entries = old := not_not.1 fun hne => h (.unstamped hstages hpublish hstamp hne)
        refine .of_error (hprepare.trans hstage) (managed_congr ?_ hrecord hdisabled)
        rw [hpackage, hback.installed, heq]
      | ok stamp =>
        have hparse := hserde previous archive stamp platform hview hresolved hstamp
          hback.verifies.platform
        refine update_atomic_of_prepares h ⟨hpublish, archive, platform, stamp, hstages, hstamp, rfl⟩
          hparse ?_
        simp [managed, Change.next, staged, UpdateChange.archive, hdeclared, hview, hresolved,
          hback.verifies.extracted, hback.verifies.platform, hstamp, applied]
    · exact absurd (.stranded ⟨hguard, hdeclared, hprobed, hread, hview, hmanaged, hresolved, hopens,
        hback⟩ hpublish hunpublish) h
    · exact .of_error (hprepare.trans hstage) (Agree.managed hframe)
  · refine .of_ok hprepare (fun result d₂ hcommit => ?_) fun e d₂ d₃ hcommit => ?_
    · cases hcommit
      simp [Change.next, managed, hnone, staged]
    · cases hcommit
  · exact .of_error hprepare rfl

end LuaSkills.Lifecycle
