import LuaSkills.Lifecycle.Update

/-!
# Uninstalls

An uninstall keeps its two records and its package in the prepared change, so its rollback restores
all three. Two things escape it: a backup that a failed removal pruned is moved back as it is, and a
record whose text names another skill is written back under that skill's name.
-/

namespace LuaSkills.Lifecycle

open Disk DiskProg Function Option SkillManager
open SkillConfig (validateLuaskillsIdentifier)

variable {m : SkillManager} {serde : RecordSerde} {skillId : String} {d d' : Disk Place} {e : String}
  {node : Option DiskNode} {entries : List (String × String)} {backup : Option String} {R : Type}
  {parse : String → Option R} {b : RestoreAnswers}

/-! ## Records put back -/

theorem PersistAnswers.leaves_of_writes {a : PersistAnswers} (h : a.Writes node) :
    a.leaves node text = some (.file text) := by
  obtain ⟨hclear, hwrite, hdir⟩ := h
  unfold PersistAnswers.leaves
  rw [if_pos hclear, hwrite]
  cases node with
  | none => rfl
  | some node =>
    cases node with
    | file _ => rfl
    | dir entries => exact absurd rfl (hdir entries)

theorem PersistAnswers.leaves_dir_iff {a : PersistAnswers} :
    a.leaves node text = some (.dir entries) ↔ node = some (.dir entries) := by
  unfold PersistAnswers.leaves
  split
  · split <;> simp_all
  · rfl

/-- A record to put back: the skill id of its text and the text. -/
abbrev Filing := Option (String × String)

/-- The disk after a record was put back, successfully or not. -/
def putBack (file : String → Place) (a : PersistAnswers) (d : Disk Place) : Filing → Disk Place
  | none => d
  | some (id, text) => update d (file id) (a.leaves (d (file id)) text)

/-- The record is put back. A record that did not exist is confirmed absent, which for a disabled
record takes the state layout. -/
def RestoreAnswers.PutsBack (a : RestoreAnswers) (file : String → Place) (layout : Bool)
    (d : Disk Place) : Filing → Prop
  | none => (layout = true → a.remove.layout.Clear) ∧ a.remove.probe = .ok
  | some (id, _) => a.persist.Writes (d (file id))

def filingDisabled (serde : RecordSerde) (previous : Option DisabledSkillRecord) : Filing :=
  previous.map fun record => (record.skillId, serde.renderDisabled record)

@[simp] theorem filingDisabled_none : filingDisabled serde none = none := rfl

def filingInstall (serde : RecordSerde) (previous : Option InstalledSkillRecord) : Filing :=
  previous.map fun record => (record.skillId, serde.renderInstall record)

@[simp] theorem filingInstall_none : filingInstall serde none = none := rfl

section
variable {file : String → Place} {a : PersistAnswers} {filing : Filing} {q : Place}

@[simp] theorem putBack_none : putBack file a d none = d := rfl

theorem putBack_of_ne (h : ∀ id, q ≠ file id) : putBack file a d filing q = d q := by
  cases filing with
  | none => rfl
  | some entry => exact update_of_ne (h entry.1) ..

theorem putBack_of_id_ne (hfile : Injective file)
    (h : ∀ id text, filing = some (id, text) → id ≠ skillId) :
    putBack file a d filing (file skillId) = d (file skillId) := by
  cases filing with
  | none => rfl
  | some entry =>
    exact update_of_ne (fun heq => h entry.1 entry.2 rfl (hfile heq).symm) ..

theorem putBack_congr (h : ∀ id, d' (file id) = d (file id)) :
    putBack file a d' filing (file skillId) = putBack file a d filing (file skillId) := by
  cases filing with
  | none => exact h skillId
  | some entry =>
    simp only [putBack, h]
    by_cases heq : file skillId = file entry.1
    · rw [heq, update_self, update_self]
    · rw [update_of_ne heq, update_of_ne heq, h]

theorem putBack_dir_iff {id : String} :
    putBack file a d filing (file id) = some (.dir entries) ↔ d (file id) = some (.dir entries) := by
  cases filing with
  | none => rfl
  | some entry =>
    by_cases heq : file id = file entry.1
    · rw [heq, putBack, update_self, PersistAnswers.leaves_dir_iff]
    · rw [putBack, update_of_ne heq]

/-- Whether a record can be put back does not depend on an earlier attempt. -/
theorem putsBack_congr {r : RestoreAnswers} (h : ∀ id text, filing = some (id, text) → ∀ entries,
      d' (file id) = some (.dir entries) ↔ d (file id) = some (.dir entries)) :
    r.PutsBack file layout d' filing ↔ r.PutsBack file layout d filing := by
  cases filing with
  | none => rfl
  | some entry =>
    obtain ⟨id, text⟩ := entry
    simp only [RestoreAnswers.PutsBack, PersistAnswers.Writes]
    have hdir := h id text rfl
    constructor
    · rintro ⟨hclear, hwrite, hnot⟩
      exact ⟨hclear, hwrite, fun entries heq => hnot entries ((hdir entries).2 heq)⟩
    · rintro ⟨hclear, hwrite, hnot⟩
      exact ⟨hclear, hwrite, fun entries heq => hnot entries ((hdir entries).1 heq)⟩

end

section
variable (m serde d) (hid : validateLuaskillsIdentifier skillId "skill_id" = .ok ())
include hid

theorem restoreDisabledRecord_spec (a : RestoreAnswers)
    (hnone : previous = none → d (.disabled skillId) = none) :
    (m.restoreDisabledRecord serde a skillId previous d).2 =
      putBack .disabled a.persist d (filingDisabled serde previous) ∧
    ((∃ d', m.restoreDisabledRecord serde a skillId previous d = (.ok (), d')) ↔
      a.PutsBack .disabled true d (filingDisabled serde previous)) := by
  cases previous with
  | some record =>
    refine ⟨persistRecord_snd .., ?_⟩
    constructor
    · rintro ⟨d', h⟩
      exact (persistRecord_eq_ok.1 h).1
    · intro h
      exact ⟨_, persistRecord_eq_ok.2 ⟨h, rfl⟩⟩
  | none =>
    have habsent := hnone rfl
    have hsame : update d (.disabled skillId) none = d := by
      rw [← habsent, update_eq_self]
    simp only [restoreDisabledRecord, filingDisabled, map_none, putBack,
      RestoreAnswers.PutsBack]
    rcases hx : m.removeDisabledRecord a.remove skillId d with ⟨e | b, d₁⟩
    · obtain rfl := removeDisabledRecord_error hid hx
      rw [bind_of_error hx]
      refine ⟨rfl, ⟨nofun, fun ⟨hclear, hprobe⟩ => ?_⟩⟩
      rw [(removeDisabledRecord_eq_ok hid).2 ⟨hclear trivial, ⟨hprobe, .inl habsent⟩, rfl,
        rfl⟩] at hx
      cases hx
    · obtain ⟨hclear, ⟨hprobe, -⟩, -, rfl⟩ := (removeDisabledRecord_eq_ok hid).1 hx
      rw [bind_of_ok hx, hsame]
      exact ⟨rfl, fun _ => ⟨fun _ => hclear, hprobe⟩, fun _ => ⟨d, rfl⟩⟩

theorem restoreInstallRecord_spec (a : RestoreAnswers)
    (hnone : previous = none → d (.install skillId) = none) :
    (m.restoreInstallRecord serde a skillId previous d).2 =
      putBack .install a.persist d (filingInstall serde previous) ∧
    ((∃ d', m.restoreInstallRecord serde a skillId previous d = (.ok (), d')) ↔
      a.PutsBack .install false d (filingInstall serde previous)) := by
  cases previous with
  | some record =>
    refine ⟨persistRecord_snd .., ?_⟩
    constructor
    · rintro ⟨d', h⟩
      exact (persistRecord_eq_ok.1 h).1
    · intro h
      exact ⟨_, persistRecord_eq_ok.2 ⟨h, rfl⟩⟩
  | none =>
    have habsent := hnone rfl
    have hsame : update d (.install skillId) none = d := by
      rw [← habsent, update_eq_self]
    simp only [restoreInstallRecord, filingInstall, map_none, putBack,
      RestoreAnswers.PutsBack]
    rcases hx : m.removeInstallRecord a.remove skillId d with ⟨e | b, d₁⟩
    · obtain rfl := removeInstallRecord_error hid hx
      rw [bind_of_error hx]
      refine ⟨rfl, ⟨nofun, fun ⟨_, hprobe⟩ => ?_⟩⟩
      rw [(removeInstallRecord_eq_ok hid).2 ⟨⟨hprobe, .inl habsent⟩, rfl, rfl⟩] at hx
      cases hx
    · obtain ⟨⟨hprobe, -⟩, -, rfl⟩ := (removeInstallRecord_eq_ok hid).1 hx
      rw [bind_of_ok hx, hsame]
      exact ⟨rfl, fun _ => ⟨nofun, hprobe⟩, fun _ => ⟨d, rfl⟩⟩

end

/-! ## Prepared uninstalls -/

/-- The read of a record file gives `found`. -/
def ReadAnswers.Finds {R : Type} (a : ReadAnswers) (parse : String → Option R)
    (node : Option DiskNode) : Option R → Prop
  | none => a.probe = .ok ∧ node = none
  | some record => a.probe = .ok ∧ a.read = .ok ∧ recordView parse node = .record record

def UninstallAnswers.Moves (a : UninstallAnswers) (d : Disk Place) :
    Option (List (String × String)) → Prop
  | none => a.target = .ok ∧ d .package = none
  | some entries => a.target = .ok ∧ d .package = some (.dir entries) ∧
      (∃ timestamp, a.clock = .ok timestamp) ∧ a.parent = .ok ∧ Vacant (d .backup) ∧ a.move = .ok

structure UninstallChange.Prepares (c : UninstallChange) (m : SkillManager) (serde : RecordSerde)
    (skillId : String) (d : Disk Place) (disabled : Option DisabledSkillRecord)
    (install : Option InstalledSkillRecord) (old : Option (List (String × String))) : Prop where
  guarded : m.guardOperation c.plane .uninstall skillId = .ok ()
  path : c.skillDir = m.targetDir skillId
  layout : c.prepare.layout.Clear
  disabled : c.prepare.disabled.Finds serde.parseDisabled (d (.disabled skillId)) disabled
  install : c.prepare.install.Finds serde.parseInstall (d (.install skillId)) install
  moves : c.prepare.Moves d old

def backedUp (d : Disk Place) : Option (List (String × String)) → Disk Place
  | none => d
  | some entries => update (update d .package none) .backup (some (.dir entries))

section
variable {a : UninstallAnswers}

theorem backUpForUninstall_of_moves (h : a.Moves d old) : ∃ backup, backup.isSome = old.isSome ∧
      m.backUpForUninstall skillId a d = (.ok backup, backedUp d old) := by
  cases old with
  | none =>
    have hprobe : skillPackageDirIsDirectory a.target .package (m.targetDir skillId) d =
        (.ok false, d) := probe_eq_false.2 ⟨h.1, h.2, rfl⟩
    exact ⟨none, rfl, bind_of_ok hprobe⟩
  | some entries =>
    obtain ⟨htarget, hpackage, ⟨timestamp, hclock⟩, hparent, hvacant, hmove⟩ := h
    have hprobe : skillPackageDirIsDirectory a.target .package (m.targetDir skillId) d =
        (.ok true, d) := probe_eq_true.2 ⟨htarget, ⟨_, hpackage, rfl⟩, rfl⟩
    refine ⟨some (m.stampedDir "uninstall_backup" skillId timestamp), rfl, ?_⟩
    rw [backUpForUninstall, bind_of_ok hprobe]
    simp only [if_true]
    rw [bind_of_ok (lift_eq_ok.2 ⟨hclock, rfl⟩),
      bind_of_ok (mapErr_eq_ok.2 (createDirAll_eq_ok (u := ()).2 ⟨hparent, rfl⟩)),
      bind_of_ok (mapErr_eq_ok.2 (rename_eq_ok (u := ()).2 ⟨hmove, _, hpackage, hvacant, rfl⟩))]
    rfl

theorem moves_of_backUpForUninstall
    (h : m.backUpForUninstall skillId a d = (.ok backup, d')) : ∃ old, a.Moves d old := by
  simp only [backUpForUninstall, bind_eq_ok] at h
  obtain ⟨found, d₁, hp, h⟩ := h
  cases found with
  | false =>
    obtain ⟨htarget, hnone, rfl⟩ := probe_eq_false.1 hp
    exact ⟨none, htarget, hnone⟩
  | true =>
    obtain ⟨htarget, ⟨node, hnode, hdir⟩, rfl⟩ := probe_eq_true.1 hp
    obtain ⟨entries, rfl⟩ := isDir_iff.1 hdir
    simp only [if_true, bind_eq_ok, mapErr_eq_ok, lift_eq_ok, createDirAll_eq_ok,
      rename_eq_ok] at h
    obtain ⟨timestamp, _, ⟨hclock, rfl⟩, _, _, ⟨hparent, rfl⟩, _, _, ⟨hmove, _, _, hvacant, _⟩, _⟩ := h
    exact ⟨some entries, htarget, hnode, ⟨timestamp, hclock⟩, hparent, hvacant, hmove⟩

theorem backUpForUninstall_error (h : m.backUpForUninstall skillId a d = (.error e, d')) :
    d' = d := by
  simp only [backUpForUninstall, bind_eq_error] at h
  rcases h with h | ⟨found, d₁, hp, h⟩
  · exact probe_error h
  · cases found with
    | false => cases h
    | true =>
      obtain ⟨-, -, rfl⟩ := probe_eq_true.1 hp
      simp only [if_true, bind_eq_error, mapErr_eq_error, mapErr_eq_ok, lift_eq_error, lift_eq_ok,
        createDirAll_eq_error, createDirAll_eq_ok] at h
      rcases h with ⟨_, rfl⟩ | ⟨_, _, ⟨_, rfl⟩, ⟨_, ⟨_, rfl⟩, _⟩ | ⟨_, _, ⟨_, rfl⟩, ⟨_, h, _⟩ |
        ⟨_, _, _, h⟩⟩⟩
      · rfl
      · rfl
      · exact rename_error h
      · cases h

theorem finds_iff {r : ReadAnswers} :
    readRecord (probe isFile mistyped failed r.probe place path) r.read place path parse
      d = (.ok found, d') ↔ r.Finds parse (d place) found ∧ d' = d := by
  rw [readRecord_eq_ok]
  cases found with
  | none => exact ⟨fun ⟨hp, hd, hn⟩ => ⟨⟨hp, hn⟩, hd⟩, fun ⟨⟨hp, hn⟩, hd⟩ => ⟨hp, hd, hn⟩⟩
  | some record => exact ⟨fun ⟨hp, hd, h⟩ => ⟨⟨hp, h⟩, hd⟩, fun ⟨⟨hp, h⟩, hd⟩ => ⟨hp, hd, h⟩⟩

end

section
variable {c : UninstallChange} {disabled : Option DisabledSkillRecord}
  {install : Option InstalledSkillRecord} {old : Option (List (String × String))}

theorem prepareUninstall_of_prepares (h : c.Prepares m serde skillId d disabled install old) :
    ∃ backup, backup.isSome = old.isSome ∧
      m.prepareUninstallSkillAtPathInPlane serde skillId c.plane c.skillDir c.prepare d =
        (.ok ⟨uninstallResult skillId backup.isSome, backup, disabled, install⟩,
          backedUp d old) := by
  obtain ⟨backup, hsome, hback⟩ := backUpForUninstall_of_moves (m := m) h.moves
  have hdisabled : m.disabledRecord serde c.prepare.disabled skillId d = (.ok disabled, d) :=
    finds_iff.2 ⟨h.disabled, rfl⟩
  have hinstall : m.installRecord serde c.prepare.install skillId d = (.ok install, d) := by
    rw [installRecord,
      bind_of_ok (lift_eq_ok.2 ⟨guardOperation_eq_ok h.guarded, rfl⟩)]
    exact finds_iff.2 ⟨h.install, rfl⟩
  refine ⟨backup, hsome, ?_⟩
  rw [prepareUninstallSkillAtPathInPlane, bind_of_ok (lift_eq_ok.2 ⟨h.guarded, rfl⟩),
    bind_of_ok (lift_eq_ok.2 ⟨refuseIf_of_not (not_not.2 h.path), rfl⟩),
    bind_of_ok (ensureStateLayout_eq_ok (u := ()).2 ⟨h.layout, rfl⟩),
    bind_of_ok hdisabled, bind_of_ok hinstall, bind_of_ok hback]
  rfl

theorem prepares_of_prepareUninstall
    (h : m.prepareUninstallSkillAtPathInPlane serde skillId c.plane c.skillDir c.prepare d =
      (.ok t, d')) : ∃ disabled install old, c.Prepares m serde skillId d disabled install old := by
  simp only [prepareUninstallSkillAtPathInPlane, bind_eq_ok, lift_eq_ok,
    refuseIf_eq_ok, ensureStateLayout_eq_ok] at h
  obtain ⟨_, _, ⟨hguard, rfl⟩, _, _, ⟨hpath, rfl⟩, _, _, ⟨hclear, rfl⟩, disabled, _, hdisabled,
    install, _, hinstall, backup, _, hback, -⟩ := h
  obtain ⟨hfinds, rfl⟩ := finds_iff.1 hdisabled
  rw [installRecord,
    bind_of_ok (lift_eq_ok.2 ⟨guardOperation_eq_ok hguard, rfl⟩)] at hinstall
  obtain ⟨hfinds', rfl⟩ := finds_iff.1 hinstall
  obtain ⟨old, hmoves⟩ := moves_of_backUpForUninstall hback
  exact ⟨disabled, install, old, hguard, not_not.1 hpath, hclear, hfinds, hfinds', hmoves⟩

theorem readRecord_inert :
    Inert (readRecord (probe isFile mistyped failed p place path) r place path parse) := by
  intro d
  rcases h : readRecord (probe isFile mistyped failed p place path) r place path parse d
    with ⟨e | found, d'⟩
  · exact readRecord_error h
  · exact (readRecord_eq_ok.1 h).2.1

theorem prepareUninstall_undone :
    Undone (m.prepareUninstallSkillAtPathInPlane serde skillId c.plane c.skillDir c.prepare) := by
  have hinstall : Inert (m.installRecord serde c.prepare.install skillId) := by
    intro d
    unfold installRecord
    cases hid : validateLuaskillsIdentifier skillId "skill_id" with
    | error e => rfl
    | ok u =>
      rw [bind_of_ok (lift_eq_ok.2 ⟨rfl, rfl⟩)]
      exact readRecord_inert d
  refine Inert.lift.bind_undone fun _ => Inert.lift.bind_undone fun _ =>
    Inert.bind_undone (fun d => ensureStateLayout_snd) fun _ =>
    Inert.bind_undone readRecord_inert fun _ => hinstall.bind_undone fun _ => Undone.bind_pure ?_
  exact fun d e d' h => backUpForUninstall_error h

end

/-! ## Commit and rollback -/

def UninstallChange.DropsDisabled (c : UninstallChange) (disabled : Option DisabledSkillRecord) :
    Prop :=
  disabled = none ∨ c.commit.disabled.layout.Clear ∧ c.commit.disabled.probe = .ok ∧
    c.commit.disabled.remove = .ok

def UninstallChange.DropsInstall (c : UninstallChange) (install : Option InstalledSkillRecord) :
    Prop :=
  install = none ∨ c.commit.install.probe = .ok ∧ c.commit.install.remove = .ok

structure UninstallChange.RollsBack (c : UninstallChange) (serde : RecordSerde) (d : Disk Place)
    (disabled : Option DisabledSkillRecord) (install : Option InstalledSkillRecord)
    (old : Option (List (String × String))) : Prop where
  package : old = none ∨ c.rollback.package.Clears none
  disabled : c.rollback.disabled.PutsBack .disabled true d (filingDisabled serde disabled)
  install : c.rollback.install.PutsBack .install false d (filingInstall serde install)

/-- The disk of a prepared uninstall without its records. -/
def unrecorded (skillId : String) (d : Disk Place) (old : Option (List (String × String))) :
    Disk Place :=
  update (update (backedUp d old) (.disabled skillId) none) (.install skillId) none

inductive UninstallChange.CommitFails (c : UninstallChange) (serde : RecordSerde) (skillId : String)
    (d : Disk Place) (disabled : Option DisabledSkillRecord) (install : Option InstalledSkillRecord)
    (old : Option (List (String × String))) : Disk Place → Prop where
  | disabled : ¬ c.DropsDisabled disabled →
    CommitFails c serde skillId d disabled install old (backedUp d old)
  | install : c.DropsDisabled disabled → ¬ c.DropsInstall install →
    CommitFails c serde skillId d disabled install old
      (update (backedUp d old) (.disabled skillId) none)
  | backup {entries kept error} : c.DropsDisabled disabled → c.DropsInstall install →
    old = some entries → c.commit.removal = .fail kept error →
    CommitFails c serde skillId d disabled install old
      (putBack .install c.commit.restoreInstall.persist
        (putBack .disabled c.commit.restoreDisabled.persist
          (update (unrecorded skillId d old) .backup (some (.dir (pruned kept entries))))
          (filingDisabled serde disabled)) (filingInstall serde install))

section
variable {c : UninstallChange} {disabled : Option DisabledSkillRecord}
  {install : Option InstalledSkillRecord} {old : Option (List (String × String))}

@[simp] theorem backedUp_disabled : backedUp d old (.disabled skillId) = d (.disabled skillId) := by
  cases old <;> simp [backedUp]

@[simp] theorem backedUp_install : backedUp d old (.install skillId) = d (.install skillId) := by
  cases old <;> simp [backedUp]

theorem ReadAnswers.Finds.file {a : ReadAnswers} (h : a.Finds parse node (some record)) :
    ∃ text, node = some (.file text) := by
  obtain ⟨-, -, hview⟩ := h
  cases node with
  | none => cases hview
  | some node =>
    cases node with
    | dir entries => cases hview
    | file text => exact ⟨text, rfl⟩

theorem ReadAnswers.Finds.not_dir {a : ReadAnswers} (h : a.Finds parse node found) :
    node ≠ some (.dir entries) := by
  cases found with
  | none => simp [h.2]
  | some record =>
    obtain ⟨text, rfl⟩ := h.file
    simp

namespace UninstallChange.Prepares

theorem package (h : c.Prepares m serde skillId d disabled install old) :
    backedUp d old .package = none := by
  have hmoves := h.moves
  cases old with
  | none => exact hmoves.2
  | some entries => simp [backedUp]

theorem valid (h : c.Prepares m serde skillId d disabled install old) :
    validateLuaskillsIdentifier skillId "skill_id" = .ok () := guardOperation_eq_ok h.guarded

theorem disabled_none (h : c.Prepares m serde skillId d none install old) :
    d (.disabled skillId) = none := h.disabled.2

theorem install_none (h : c.Prepares m serde skillId d disabled none old) :
    d (.install skillId) = none := h.install.2

end UninstallChange.Prepares

theorem dropDisabled_cases (hid : validateLuaskillsIdentifier skillId "skill_id" = .ok ())
    {r : ReadAnswers} (hfinds : r.Finds serde.parseDisabled (d (.disabled skillId)) disabled) :
    (c.DropsDisabled disabled ∧ dropRecord disabled.isSome
      (m.removeDisabledRecord c.commit.disabled skillId) d =
        (.ok (), update d (.disabled skillId) none)) ∨
    (¬ c.DropsDisabled disabled ∧ ∃ e, dropRecord disabled.isSome
      (m.removeDisabledRecord c.commit.disabled skillId) d = (.error e, d)) := by
  cases disabled with
  | none =>
    refine .inl ⟨.inl rfl, ?_⟩
    rw [show update d (.disabled skillId) none = d by
      rw [← hfinds.2, update_eq_self]]
    rfl
  | some record =>
    obtain ⟨text, hfile⟩ := hfinds.file
    simp only [dropRecord, isSome_some, if_true]
    rcases hx : m.removeDisabledRecord c.commit.disabled skillId d with ⟨e | b, d₁⟩
    · obtain rfl := removeDisabledRecord_error hid hx
      refine .inr ⟨?_, e, bind_of_error hx⟩
      rintro (hnone | ⟨hclear, hprobe, hremove⟩)
      · cases hnone
      · rw [(removeDisabledRecord_eq_ok hid).2 ⟨hclear,
          ⟨hprobe, .inr ⟨⟨text, hfile⟩, hremove⟩⟩, rfl, rfl⟩] at hx
        cases hx
    · obtain ⟨hclear, ⟨hprobe, hremove⟩, -, rfl⟩ := (removeDisabledRecord_eq_ok hid).1 hx
      refine .inl ⟨.inr ⟨hclear, hprobe, ?_⟩, bind_of_ok hx⟩
      rcases hremove with habsent | ⟨-, hremove⟩
      · simp [hfile] at habsent
      · exact hremove

theorem dropInstall_cases (hid : validateLuaskillsIdentifier skillId "skill_id" = .ok ())
    {r : ReadAnswers} (hfinds : r.Finds serde.parseInstall (d (.install skillId)) install) :
    (c.DropsInstall install ∧ dropRecord install.isSome
      (m.removeInstallRecord c.commit.install skillId) d =
        (.ok (), update d (.install skillId) none)) ∨
    (¬ c.DropsInstall install ∧ ∃ e, dropRecord install.isSome
      (m.removeInstallRecord c.commit.install skillId) d = (.error e, d)) := by
  cases install with
  | none =>
    refine .inl ⟨.inl rfl, ?_⟩
    rw [show update d (.install skillId) none = d by
      rw [← hfinds.2, update_eq_self]]
    rfl
  | some record =>
    obtain ⟨text, hfile⟩ := hfinds.file
    simp only [dropRecord, isSome_some, if_true]
    rcases hx : m.removeInstallRecord c.commit.install skillId d with ⟨e | b, d₁⟩
    · obtain rfl := removeInstallRecord_error hid hx
      refine .inr ⟨?_, e, bind_of_error hx⟩
      rintro (hnone | ⟨hprobe, hremove⟩)
      · cases hnone
      · rw [(removeInstallRecord_eq_ok hid).2
          ⟨⟨hprobe, .inr ⟨⟨text, hfile⟩, hremove⟩⟩, rfl, rfl⟩] at hx
        cases hx
    · obtain ⟨⟨hprobe, hremove⟩, -, rfl⟩ := (removeInstallRecord_eq_ok hid).1 hx
      refine .inl ⟨.inr ⟨hprobe, ?_⟩, bind_of_ok hx⟩
      rcases hremove with habsent | ⟨-, hremove⟩
      · simp [hfile] at habsent
      · exact hremove

variable (m serde) in
theorem restoreRecords_apply (a : CommitUninstallAnswers) (prepared : PreparedSkillUninstall)
    (hid : validateLuaskillsIdentifier prepared.result.skillId "skill_id" = .ok ())
    (message : String) (hdisabled : d (.disabled prepared.result.skillId) = none)
    (hinstall : d (.install prepared.result.skillId) = none) :
    ∃ e, m.restoreRecords serde a prepared message d =
      (.error e, putBack .install a.restoreInstall.persist
        (putBack .disabled a.restoreDisabled.persist d
          (filingDisabled serde prepared.previousDisabledRecord))
        (filingInstall serde prepared.previousInstallRecord)) := by
  have hfirst := (restoreDisabledRecord_spec m serde d hid a.restoreDisabled
    fun _ : prepared.previousDisabledRecord = none => hdisabled).1
  have hsecond := (restoreInstallRecord_spec m serde
    (putBack .disabled a.restoreDisabled.persist d
      (filingDisabled serde prepared.previousDisabledRecord)) hid a.restoreInstall
    fun _ : prepared.previousInstallRecord = none => by simp [putBack_of_ne, hinstall]).1
  unfold restoreRecords
  rw [bind_of_ok (attempt_eq.2 rfl), bind_of_ok (attempt_eq.2 rfl), hfirst, hsecond]
  exact ⟨_, rfl⟩

/-- The commit of a prepared uninstall: it removes the records and the backup, or stops. -/
theorem commit_uninstall (h : c.Prepares m serde skillId d disabled install old)
    (hbackup : backup.isSome = old.isSome) (result : SkillUninstallResult)
    (hresult : result.skillId = skillId) :
    (c.DropsDisabled disabled ∧ c.DropsInstall install ∧ (old = none ∨ c.commit.removal = .ok) ∧
      ∃ d', m.commitPreparedSkillUninstall serde c.commit ⟨result, backup, disabled, install⟩
          (backedUp d old) = (.ok result, d') ∧
        ∀ q, q ≠ .backup → d' q = unrecorded skillId d old q) ∨
    (∃ e d', c.CommitFails serde skillId d disabled install old d' ∧
      m.commitPreparedSkillUninstall serde c.commit ⟨result, backup, disabled, install⟩
        (backedUp d old) = (.error e, d')) := by
  subst hresult
  have hdisabled : c.prepare.disabled.Finds serde.parseDisabled
      (backedUp d old (.disabled result.skillId)) disabled := by
    simpa using h.disabled
  have hinstall : c.prepare.install.Finds serde.parseInstall
      (update (backedUp d old) (.disabled result.skillId) none (.install result.skillId))
      install := by
    simpa using h.install
  unfold commitPreparedSkillUninstall
  rcases dropDisabled_cases (c := c) (m := m) h.valid hdisabled with ⟨hd, hx⟩ | ⟨hd, e, hx⟩
  · rw [bind_of_ok hx]
    rcases dropInstall_cases (c := c) (m := m) h.valid hinstall with ⟨hi, hy⟩ | ⟨hi, e, hy⟩
    · rw [bind_of_ok hy]
      cases old with
      | none =>
        obtain rfl : backup = none := by simpa using hbackup
        exact .inl ⟨hd, hi, .inl rfl, _, rfl, fun _ _ => rfl⟩
      | some entries =>
        obtain ⟨path, rfl⟩ := isSome_iff_exists.1 (hbackup.trans rfl)
        have hkept : unrecorded result.skillId d (some entries) .backup = some (.dir entries) := by
          simp [unrecorded, backedUp]
        dsimp only
        rw [bind_of_ok (attempt_eq.2 rfl)]
        cases hremoval : c.commit.removal with
        | ok =>
          refine .inl ⟨hd, hi, .inr rfl, update (unrecorded result.skillId d (some entries))
            .backup none, ?_, fun q hq => update_of_ne hq ..⟩
          rw [show removeDirAll .ok Place.backup (update (update
            (backedUp d (some entries)) (.disabled result.skillId) none) (.install result.skillId)
              none) = (.ok (), _) from removeDirAll_eq_ok.2 ⟨rfl, ⟨entries, hkept⟩, rfl⟩]
          rfl
        | fail kept error =>
          obtain ⟨e, hrestore⟩ := restoreRecords_apply m serde c.commit
            ⟨result, some path, disabled, install⟩ h.valid
            ("Failed to remove uninstall backup " ++ path ++ ": " ++ error)
            (d := update (unrecorded result.skillId d (some entries)) .backup
              (some (.dir (pruned kept entries)))) (by simp [unrecorded]) (by simp [unrecorded])
          refine .inr ⟨e, _, .backup hd hi rfl hremoval, ?_⟩
          rw [show removeDirAll (.fail kept error) Place.backup (update (update
            (backedUp d (some entries)) (.disabled result.skillId) none) (.install result.skillId)
              none) = (.error error, _) from (removeDirAll_error hkept).2 ⟨kept, rfl, rfl⟩]
          exact hrestore
    · exact .inr ⟨e, _, .install hd hi, bind_of_error hy⟩
  · exact .inr ⟨e, _, .disabled hd, bind_of_error hx⟩

/-- The two records put back, over a disk `d` that keeps them apart from the package. -/
theorem restoreBoth (hid : validateLuaskillsIdentifier skillId "skill_id" = .ok ())
    (hdisabled : disabled = none → d (.disabled skillId) = none)
    (hinstall : install = none → d (.install skillId) = none) : (∃ d', (do
        m.restoreDisabledRecord serde a skillId disabled
        m.restoreInstallRecord serde b skillId install) d = (.ok (), d')) ↔
      a.PutsBack .disabled true d (filingDisabled serde disabled) ∧
        b.PutsBack .install false d (filingInstall serde install) := by
  obtain ⟨hstate, hok⟩ := restoreDisabledRecord_spec m serde d hid a hdisabled
  obtain ⟨-, hok'⟩ := restoreInstallRecord_spec m serde
    (putBack .disabled a.persist d (filingDisabled serde disabled)) hid b
    fun hnone : install = none => by simp [putBack_of_ne, hinstall hnone]
  have hcongr : b.PutsBack .install false (putBack .disabled a.persist d
      (filingDisabled serde disabled)) (filingInstall serde install) ↔
      b.PutsBack .install false d (filingInstall serde install) :=
    putsBack_congr fun id text _ entries => by simp [putBack_of_ne]
  rw [← hok, ← hcongr, ← hok', ← hstate]
  constructor
  · rintro ⟨d', h⟩
    obtain ⟨_, d₁, h₁, h₂⟩ := bind_eq_ok.1 h
    rw [h₁]
    exact ⟨⟨d₁, rfl⟩, ⟨d', h₂⟩⟩
  · rintro ⟨⟨d₁, h₁⟩, ⟨d', h₂⟩⟩
    rw [h₁] at h₂
    exact ⟨d', by rw [bind_of_ok h₁]; exact h₂⟩

theorem restoreBoth_state (hid : validateLuaskillsIdentifier skillId "skill_id" = .ok ())
    (hdisabled : disabled = none → d (.disabled skillId) = none)
    (hinstall : install = none → d (.install skillId) = none) (h : (do
      m.restoreDisabledRecord serde a skillId disabled
      m.restoreInstallRecord serde b skillId install) d = (.ok (), d')) :
    d' = putBack .install b.persist (putBack .disabled a.persist d (filingDisabled serde disabled))
      (filingInstall serde install) := by
  obtain ⟨hstate, -⟩ := restoreDisabledRecord_spec m serde d hid a hdisabled
  obtain ⟨hstate', -⟩ := restoreInstallRecord_spec m serde
    (putBack .disabled a.persist d (filingDisabled serde disabled)) hid b
    fun hnone : install = none => by simp [putBack_of_ne, hinstall hnone]
  obtain ⟨_, d₁, h₁, h₂⟩ := bind_eq_ok.1 h
  rw [h₁] at hstate
  rw [← hstate] at hstate' ⊢
  rw [h₂] at hstate'
  exact hstate'

theorem restoreBoth_apply (hid : validateLuaskillsIdentifier skillId "skill_id" = .ok ())
    (hdisabled : disabled = none → d (.disabled skillId) = none)
    (hinstall : install = none → d (.install skillId) = none) (h : (do
      m.restoreDisabledRecord serde a skillId disabled
      m.restoreInstallRecord serde b skillId install) d = (.ok (), d')) : d' .package = d .package ∧
      d' (.disabled skillId) =
        putBack .disabled a.persist d (filingDisabled serde disabled) (.disabled skillId) ∧
      d' (.install skillId) =
        putBack .install b.persist d (filingInstall serde install) (.install skillId) := by
  rw [restoreBoth_state hid hdisabled hinstall h]
  refine ⟨by simp [putBack_of_ne], by simp [putBack_of_ne], putBack_congr fun id => ?_⟩
  simp [putBack_of_ne]

variable (m serde c) in
theorem rollback_uninstall (hid : validateLuaskillsIdentifier skillId "skill_id" = .ok ())
    (hbackup : backup.isSome = old.isSome)
    (result : SkillUninstallResult) (hresult : result.skillId = skillId)
    (hpackage : d .package = none)
    (hkept : ∀ entries, old = some entries → ∃ left, d .backup = some (.dir left))
    (hdisabled : disabled = none → d (.disabled skillId) = none)
    (hinstall : install = none → d (.install skillId) = none) :
    ((∃ d', m.rollbackPreparedSkillUninstall serde skillId c.rollback
        ⟨result, backup, disabled, install⟩ d = (.ok (), d')) ↔
      c.RollsBack serde d disabled install old) ∧
    ∀ d', m.rollbackPreparedSkillUninstall serde skillId c.rollback
        ⟨result, backup, disabled, install⟩ d = (.ok (), d') →
      d' .package = old.bind (fun _ => d .backup) ∧
      d' (.disabled skillId) = putBack .disabled c.rollback.disabled.persist d
        (filingDisabled serde disabled) (.disabled skillId) ∧
      d' (.install skillId) = putBack .install c.rollback.install.persist d
        (filingInstall serde install) (.install skillId) := by
  subst hresult
  unfold rollbackPreparedSkillUninstall
  cases old with
  | none =>
    obtain rfl : backup = none := by simpa using hbackup
    constructor
    · refine (restoreBoth hid hdisabled hinstall).trans ⟨fun ⟨h₁, h₂⟩ => ⟨.inl rfl, h₁, h₂⟩,
        fun h => ⟨h.disabled, h.install⟩⟩
    · intro d' h
      obtain ⟨hp, hd, hi⟩ := restoreBoth_apply hid hdisabled hinstall h
      exact ⟨hp.trans hpackage, hd, hi⟩
  | some entries =>
    obtain ⟨path, rfl⟩ := isSome_iff_exists.1 (hbackup.trans rfl)
    obtain ⟨left, hleft⟩ := hkept entries rfl
    dsimp only
    by_cases hclears : c.rollback.package.Clears none
    · obtain ⟨d₁, hrestore, hp₁, hframe⟩ : ∃ d₁, restorePackage c.rollback.package
          "Failed to remove staged uninstall target directory"
          "Failed to restore uninstall backup" (m.targetDir result.skillId) path d = (.ok (), d₁) ∧
          d₁ .package = some (.dir left) ∧ ∀ q, q ≠ .package → q ≠ .backup → d₁ q = d q :=
        restorePackage_of_clears hleft (by simp [hpackage]) (by rwa [hpackage])
      have hd₁ : ∀ id, d₁ (.disabled id) = d (.disabled id) := fun id => hframe _ nofun nofun
      have hi₁ : ∀ id, d₁ (.install id) = d (.install id) := fun id => hframe _ nofun nofun
      have hdisabled₁ : disabled = none → d₁ (.disabled result.skillId) = none :=
        fun hnone => (hd₁ _).trans (hdisabled hnone)
      have hinstall₁ : install = none → d₁ (.install result.skillId) = none :=
        fun hnone => (hi₁ _).trans (hinstall hnone)
      rw [bind_of_ok hrestore]
      constructor
      · have hcd : c.rollback.disabled.PutsBack .disabled true d₁ (filingDisabled serde disabled) ↔
            c.rollback.disabled.PutsBack .disabled true d (filingDisabled serde disabled) :=
          putsBack_congr fun id _ _ _ => by rw [hd₁ id]
        have hci : c.rollback.install.PutsBack .install false d₁ (filingInstall serde install) ↔
            c.rollback.install.PutsBack .install false d (filingInstall serde install) :=
          putsBack_congr fun id _ _ _ => by rw [hi₁ id]
        rw [restoreBoth hid hdisabled₁ hinstall₁, hcd, hci]
        exact ⟨fun ⟨h₁, h₂⟩ => ⟨.inr hclears, h₁, h₂⟩, fun h => ⟨h.disabled, h.install⟩⟩
      · intro d' h
        obtain ⟨hp, hd, hi⟩ := restoreBoth_apply hid hdisabled₁ hinstall₁ h
        refine ⟨hp.trans (hp₁.trans hleft.symm), hd.trans (putBack_congr hd₁),
          hi.trans (putBack_congr hi₁)⟩
    · have hnot : ∀ d', (do
          restorePackage c.rollback.package
            "Failed to remove staged uninstall target directory"
            "Failed to restore uninstall backup" (m.targetDir result.skillId) path
          m.restoreDisabledRecord serde c.rollback.disabled result.skillId disabled
          m.restoreInstallRecord serde c.rollback.install result.skillId install) d ≠ (.ok (), d') := by
        intro d' h
        obtain ⟨_, d₁, h₁, -⟩ := bind_eq_ok.1 h
        have hok := (clears_of_restorePackage hleft h₁).1
        rw [hpackage] at hok
        exact hclears hok
      constructor
      · refine ⟨fun ⟨d', h⟩ => absurd h (hnot d'), fun h => ?_⟩
        rcases h.package with hnone | hok
        · cases hnone
        · exact absurd hok hclears
      · exact fun d' h => absurd h (hnot d')

/-! ## Schedules that break an uninstall -/

end

inductive UninstallChange.Broken (c : UninstallChange) (m : SkillManager) (serde : RecordSerde)
    (skillId : String) (d : Disk Place) : Prop where
  /-- The failed removal of the backup removed a part of it, and the rollback succeeds. -/
  | pruned {disabled install entries kept error} :
    c.Prepares m serde skillId d disabled install (some entries) →
    c.DropsDisabled disabled → c.DropsInstall install → c.commit.removal = .fail kept error →
    Disk.pruned kept entries ≠ entries → c.RollsBack serde d disabled install (some entries) →
    Broken c m serde skillId d
  /-- The disabled record names another skill, and the commit fails after its removal. -/
  | misfiledDisabled {record install old} :
    c.Prepares m serde skillId d (some record) install old → record.skillId ≠ skillId →
    c.DropsDisabled (some record) →
    (¬ c.DropsInstall install ∨ old ≠ none ∧ c.commit.removal ≠ .ok) →
    c.RollsBack serde d (some record) install old → Broken c m serde skillId d
  /-- The install record names another skill, and the commit fails after its removal. -/
  | misfiledInstall {disabled record entries} :
    c.Prepares m serde skillId d disabled (some record) (some entries) →
    record.skillId ≠ skillId → c.DropsDisabled disabled → c.DropsInstall (some record) →
    c.commit.removal ≠ .ok → c.RollsBack serde d disabled (some record) (some entries) →
    Broken c m serde skillId d

section
variable {c : UninstallChange} {disabled : Option DisabledSkillRecord}
  {install : Option InstalledSkillRecord} {old : Option (List (String × String))}

namespace UninstallChange.CommitFails

theorem package (h : c.Prepares m serde skillId d disabled install old)
    (hfails : c.CommitFails serde skillId d disabled install old d') : d' .package = none := by
  have hpackage := h.package
  cases hfails with
  | disabled => exact hpackage
  | install => simpa using hpackage
  | backup => simpa [putBack_of_ne, unrecorded] using hpackage

theorem disabled_none (hfails : c.CommitFails serde skillId d disabled install old d')
    (hnone : disabled = none) : d' (.disabled skillId) = none := by
  subst hnone
  cases hfails with
  | disabled hnot => exact absurd (.inl rfl) hnot
  | install => simp
  | backup => simp [putBack_of_ne, unrecorded]

theorem install_none (h : c.Prepares m serde skillId d disabled install old)
    (hfails : c.CommitFails serde skillId d disabled install old d') (hnone : install = none) :
    d' (.install skillId) = none := by
  subst hnone
  have hnone := h.install_none
  cases hfails with
  | disabled hnot => simpa using hnone
  | install _ hnot => exact absurd (.inl rfl) hnot
  | backup => simp [putBack_of_ne, unrecorded]

theorem kept (hfails : c.CommitFails serde skillId d disabled install old d') :
    ∀ entries, old = some entries → ∃ left, d' .backup = some (.dir left) := by
  rintro entries rfl
  cases hfails with
  | disabled | install => exact ⟨entries, by simp [backedUp]⟩
  | @backup pruned kept => exact ⟨Disk.pruned kept pruned, by simp [putBack_of_ne]⟩

theorem unique (h : c.CommitFails serde skillId d disabled install old d')
    (h' : c.CommitFails serde skillId d disabled install old failed) : failed = d' := by
  cases h with
  | disabled hd =>
    cases h' with
    | disabled => rfl
    | install hd' => exact absurd hd' hd
    | backup hd' => exact absurd hd' hd
  | install hd hi =>
    cases h' with
    | disabled hd' => exact absurd hd hd'
    | install => rfl
    | backup _ hi' => exact absurd hi' hi
  | backup hd hi hold hremoval =>
    cases h' with
    | disabled hd' => exact absurd hd hd'
    | install _ hi' => exact absurd hi hi'
    | backup _ _ hold' hremoval' =>
      cases hold.symm.trans hold'
      cases hremoval.symm.trans hremoval'
      rfl

theorem not_committed (h : c.CommitFails serde skillId d disabled install old d')
    (hd : c.DropsDisabled disabled) (hi : c.DropsInstall install) :
    ¬ (old = none ∨ c.commit.removal = .ok) := by
  cases h with
  | disabled hd' => exact absurd hd hd'
  | install _ hi' => exact absurd hi hi'
  | backup _ _ hold hremoval => simp [hold, hremoval]

theorem rollsBack_iff (h : c.Prepares m serde skillId d disabled install old)
    (hfails : c.CommitFails serde skillId d disabled install old d') :
    c.RollsBack serde d' disabled install old ↔ c.RollsBack serde d disabled install old := by
  have hcleared : ∀ id entries, update (backedUp d old) (.disabled skillId) none
      (.disabled id) = some (.dir entries) ↔ d (.disabled id) = some (.dir entries) := by
    intro id entries
    by_cases hid : id = skillId
    · simp [hid, h.disabled.not_dir]
    · simp [hid]
  have hdisabled : ∀ id entries, d' (.disabled id) = some (.dir entries) ↔
      d (.disabled id) = some (.dir entries) := by
    intro id entries
    cases hfails with
    | disabled => simp
    | install => exact hcleared id entries
    | backup =>
      rw [putBack_of_ne (by simp), putBack_dir_iff]
      simpa [unrecorded] using hcleared id entries
  have hinstall : ∀ id entries, d' (.install id) = some (.dir entries) ↔
      d (.install id) = some (.dir entries) := by
    intro id entries
    cases hfails with
    | disabled => simp
    | install => simp
    | backup =>
      rw [putBack_dir_iff, putBack_of_ne (by simp)]
      by_cases hid : id = skillId
      · simp [unrecorded, hid, h.install.not_dir]
      · simp [unrecorded, hid]
  have hd : c.rollback.disabled.PutsBack .disabled true d' (filingDisabled serde disabled) ↔
      c.rollback.disabled.PutsBack .disabled true d (filingDisabled serde disabled) :=
    putsBack_congr fun id _ _ entries => hdisabled id entries
  have hi : c.rollback.install.PutsBack .install false d' (filingInstall serde install) ↔
      c.rollback.install.PutsBack .install false d (filingInstall serde install) :=
    putsBack_congr fun id _ _ entries => hinstall id entries
  exact ⟨fun ⟨hp, h₁, h₂⟩ => ⟨hp, hd.1 h₁, hi.1 h₂⟩, fun ⟨hp, h₁, h₂⟩ => ⟨hp, hd.2 h₁, hi.2 h₂⟩⟩

end UninstallChange.CommitFails

/-- The rollback after a failed commit. -/
theorem rollback_of_commitFails (h : c.Prepares m serde skillId d disabled install old)
    (hfails : c.CommitFails serde skillId d disabled install old failed)
    (hbackup : backup.isSome = old.isSome) (result : SkillUninstallResult)
    (hresult : result.skillId = skillId) : ((∃ d', m.rollbackPreparedSkillUninstall serde skillId c.rollback
        ⟨result, backup, disabled, install⟩ failed = (.ok (), d')) ↔
      c.RollsBack serde d disabled install old) ∧
    ∀ d', m.rollbackPreparedSkillUninstall serde skillId c.rollback
        ⟨result, backup, disabled, install⟩ failed = (.ok (), d') →
      d' .package = old.bind (fun _ => failed .backup) ∧
      d' (.disabled skillId) = putBack .disabled c.rollback.disabled.persist failed
        (filingDisabled serde disabled) (.disabled skillId) ∧
      d' (.install skillId) = putBack .install c.rollback.install.persist failed
        (filingInstall serde install) (.install skillId) := by
  rw [← hfails.rollsBack_iff h]
  exact rollback_uninstall m serde c h.valid hbackup result hresult (hfails.package h) hfails.kept
    hfails.disabled_none (hfails.install_none h)

/-- The serializers restore the records that the uninstall found. -/
structure UninstallChange.Restores (serde : RecordSerde) (skillId : String) (d : Disk Place) :
    Prop where
  disabled : ∀ record, recordView serde.parseDisabled (d (.disabled skillId)) = .record record →
    serde.RestoresDisabled record
  install : ∀ record, recordView serde.parseInstall (d (.install skillId)) = .record record →
    serde.RestoresInstall record

/-- What a successful rollback needs of the disk that a commit leaves: the whole backup, and in
their place the records that go back to another one. -/
structure UninstallChange.Spared (serde : RecordSerde) (skillId : String) (failed : Disk Place)
    (disabled : Option DisabledSkillRecord) (install : Option InstalledSkillRecord)
    (old : Option (List (String × String))) : Prop where
  backup : ∀ entries, old = some entries → failed .backup = some (.dir entries)
  disabled : ∀ record, disabled = some record → record.skillId ≠ skillId →
    recordView serde.parseDisabled (failed (.disabled skillId)) = .record record
  install : ∀ record, install = some record → record.skillId ≠ skillId →
    recordView serde.parseInstall (failed (.install skillId)) = .record record

/-- A record that was put back reads as before when its text names this skill, or when the record
file was left alone. -/
theorem recordView_putBack_iff {render : R → String}
    {idOf : R → String} {file : String → Place} {previous : Option R} {a : ReadAnswers}
    {r : RestoreAnswers} {layout : Bool} {failed : Disk Place} (hfile : Injective file)
    (hfinds : a.Finds parse (d (file skillId)) previous)
    (hnone : previous = none → failed (file skillId) = none)
    (hputs : r.PutsBack file layout failed (previous.map fun record => (idOf record, render record)))
    (hrestores : ∀ record, previous = some record → parse (render record) = some record) :
    recordView parse (putBack file r.persist failed
        (previous.map fun record => (idOf record, render record)) (file skillId)) =
        recordView parse (d (file skillId)) ↔
      ∀ record, previous = some record → idOf record ≠ skillId →
        recordView parse (failed (file skillId)) = .record record := by
  cases previous with
  | none => simp [hnone rfl, hfinds.2]
  | some record =>
    simp only [map_some, RestoreAnswers.PutsBack] at hputs ⊢
    rw [hfinds.2.2]
    by_cases hid : idOf record = skillId
    · subst hid
      rw [putBack, update_self, PersistAnswers.leaves_of_writes hputs,
        recordView_render (hrestores record rfl)]
      simp
    · rw [putBack, update_of_ne fun heq => hid (hfile heq).symm]
      simp [hid]

/-- A rolled back uninstall restores the managed state when the backup is whole and the records are
where they were or go back there. -/
theorem rolledBack_uninstall (h : c.Prepares m serde skillId d disabled install old)
    (hserde : UninstallChange.Restores serde skillId d)
    (hfails : c.CommitFails serde skillId d disabled install old failed)
    (hbackup : backup.isSome = old.isSome) {result : SkillUninstallResult}
    (hresult : result.skillId = skillId)
    (hrollback : m.rollbackPreparedSkillUninstall serde skillId c.rollback
      ⟨result, backup, disabled, install⟩ failed = (.ok (), d')) :
    managed serde skillId d' = managed serde skillId d ↔
      UninstallChange.Spared serde skillId failed disabled install old := by
  obtain ⟨hiff, hstate⟩ := rollback_of_commitFails h hfails hbackup result hresult
  obtain ⟨hp, hd, hi⟩ := hstate d' hrollback
  have hrolls := (hfails.rollsBack_iff h).2 (hiff.1 ⟨d', hrollback⟩)
  have hdview : recordView serde.parseDisabled (d' (.disabled skillId)) =
      recordView serde.parseDisabled (d (.disabled skillId)) ↔
      ∀ record, disabled = some record → record.skillId ≠ skillId →
        recordView serde.parseDisabled (failed (.disabled skillId)) = .record record := by
    rw [hd]
    refine recordView_putBack_iff (fun _ _ => Place.disabled.inj) h.disabled hfails.disabled_none
      hrolls.disabled ?_
    rintro record rfl
    exact hserde.disabled record h.disabled.2.2
  have hiview : recordView serde.parseInstall (d' (.install skillId)) =
      recordView serde.parseInstall (d (.install skillId)) ↔
      ∀ record, install = some record → record.skillId ≠ skillId →
        recordView serde.parseInstall (failed (.install skillId)) = .record record := by
    rw [hi]
    refine recordView_putBack_iff (fun _ _ => Place.install.inj) h.install (hfails.install_none h)
      hrolls.install ?_
    rintro record rfl
    exact hserde.install record h.install.2.2
  have hpview : d' .package = d .package ↔
      ∀ entries, old = some entries → failed .backup = some (.dir entries) := by
    rw [hp]
    have hmoves := h.moves
    cases old with
    | none => simp [hmoves.2]
    | some entries => simp [hmoves.2.1]
  rw [Managed.ext_iff]
  exact ⟨fun ⟨h₁, h₂, h₃⟩ => ⟨hpview.1 h₁, hdview.1 h₃, hiview.1 h₂⟩,
    fun S => ⟨hpview.2 S.backup, hiview.2 S.install, hdview.2 S.disabled⟩⟩

/-- What an all-or-nothing uninstall says of a failed commit whose rollback succeeds. -/
theorem spared_of_atomic (h : c.Prepares m serde skillId d disabled install old)
    (hserde : UninstallChange.Restores serde skillId d)
    (hfails : c.CommitFails serde skillId d disabled install old failed)
    (hrolls : c.RollsBack serde d disabled install old)
    (hatomic : (Change.uninstall c).Atomic m serde skillId d) :
    UninstallChange.Spared serde skillId failed disabled install old := by
  obtain ⟨backup, hbackup, hprepare⟩ := prepareUninstall_of_prepares h
  rcases commit_uninstall h hbackup (uninstallResult skillId backup.isSome) rfl with ⟨hd, hi, hok, -⟩ | ⟨e, failed', hfails', hcommit⟩
  · exact absurd hok (hfails.not_committed hd hi)
  · obtain rfl := hfails.unique hfails'
    obtain ⟨d₃, hrollback⟩ := (rollback_of_commitFails h hfails hbackup
      (uninstallResult skillId backup.isSome) rfl).1.2 hrolls
    exact (rolledBack_uninstall h hserde hfails hbackup rfl hrollback).1
      (hatomic.rollback_ok _ _ _ _ _ hprepare hcommit hrollback)

theorem uninstall_not_atomic (hserde : UninstallChange.Restores serde skillId d)
    (h : c.Broken m serde skillId d) : ¬ (Change.uninstall c).Atomic m serde skillId d := by
  intro hatomic
  cases h with
  | @pruned disabled install entries kept error hp hd hi hremoval hne hrolls =>
    have hspared := (spared_of_atomic hp hserde (.backup hd hi rfl hremoval) hrolls hatomic).backup
    refine hne ?_
    simpa [putBack_of_ne] using hspared entries rfl
  | @misfiledDisabled record install old hp hid hd hfail hrolls =>
    by_cases hi : c.DropsInstall install
    · rcases hfail with hi' | ⟨hold, hremoval⟩
      · exact hi' hi
      obtain ⟨entries, rfl⟩ := ne_none_iff_exists'.1 hold
      cases hr : c.commit.removal with
      | ok => exact hremoval hr
      | fail kept error =>
        have hspared := (spared_of_atomic hp hserde (.backup hd hi rfl hr) hrolls hatomic).disabled
          record rfl hid
        rw [putBack_of_ne (by simp), putBack_of_id_ne (fun _ _ => Place.disabled.inj) ?_] at hspared
        · simp [unrecorded, recordView] at hspared
        · rintro id text ⟨rfl, rfl⟩
          exact hid
    · have hspared := (spared_of_atomic hp hserde (.install hd hi) hrolls hatomic).disabled record rfl hid
      simp [recordView] at hspared
  | @misfiledInstall disabled record entries hp hid hd hi hremoval hrolls =>
    cases hr : c.commit.removal with
    | ok => exact hremoval hr
    | fail kept error =>
      have hspared := (spared_of_atomic hp hserde (.backup hd hi rfl hr) hrolls hatomic).install
        record rfl hid
      rw [putBack_of_id_ne (fun _ _ => Place.install.inj) ?_, putBack_of_ne (by simp)] at hspared
      · simp [unrecorded, recordView] at hspared
      · rintro id text ⟨rfl, rfl⟩
        exact hid

/-- A failed commit that a successful rollback undoes, unless the schedule is a broken one. -/
theorem spared_of_not_broken (hbroken : ¬ c.Broken m serde skillId d)
    (h : c.Prepares m serde skillId d disabled install old)
    (hfails : c.CommitFails serde skillId d disabled install old failed)
    (hrolls : c.RollsBack serde d disabled install old) :
    UninstallChange.Spared serde skillId failed disabled install old := by
  cases hfails with
  | disabled hd =>
    refine ⟨?_, ?_, ?_⟩
    · rintro entries rfl
      simp [backedUp]
    · rintro record rfl -
      simpa using h.disabled.2.2
    · rintro record rfl -
      simpa using h.install.2.2
  | install hd hi =>
    refine ⟨?_, ?_, ?_⟩
    · rintro entries rfl
      simp [backedUp]
    · rintro record rfl hid
      exact absurd (.misfiledDisabled h hid hd (.inl hi) hrolls) hbroken
    · rintro record rfl -
      simpa using h.install.2.2
  | @backup entries kept error hd hi hold hremoval =>
    subst hold
    have hfail : c.commit.removal ≠ .ok := by simp [hremoval]
    refine ⟨?_, ?_, ?_⟩
    · rintro _ ⟨rfl⟩
      have hwhole : Disk.pruned kept entries = entries :=
        not_not.1 fun hne => hbroken (.pruned h hd hi hremoval hne hrolls)
      simp [putBack_of_ne, hwhole]
    · rintro record rfl hid
      exact absurd (.misfiledDisabled h hid hd (.inr ⟨nofun, hfail⟩) hrolls) hbroken
    · rintro record rfl hid
      exact absurd (.misfiledInstall h hid hd hi hfail hrolls) hbroken

theorem uninstall_atomic (hserde : UninstallChange.Restores serde skillId d)
    (hbroken : ¬ c.Broken m serde skillId d) : (Change.uninstall c).Atomic m serde skillId d := by
  rcases hx : m.prepareUninstallSkillAtPathInPlane serde skillId c.plane c.skillDir c.prepare d
    with ⟨e | t, d₁⟩
  · refine .of_error hx ?_
    rw [prepareUninstall_undone d e d₁ hx]
  obtain ⟨disabled, install, old, h⟩ := prepares_of_prepareUninstall hx
  obtain ⟨backup, hbackup, hprepare⟩ := prepareUninstall_of_prepares h
  refine .of_ok hprepare (fun result d₂ hcommit => ?_) fun e d₂ d₃ hcommit hrollback => ?_
  · rcases commit_uninstall h hbackup (uninstallResult skillId backup.isSome) rfl with ⟨-, -, -, d', hc, hframe⟩ | ⟨e, d', -, hc⟩
    · rw [hc] at hcommit
      cases hcommit
      refine Managed.ext ?_ ?_ ?_
      · have hpackage := h.package
        simpa [managed, hframe, unrecorded, Change.next] using hpackage
      · simp [managed, hframe, unrecorded, Change.next, recordView]
      · simp [managed, hframe, unrecorded, Change.next, recordView]
    · rw [hc] at hcommit
      cases hcommit
  · rcases commit_uninstall h hbackup (uninstallResult skillId backup.isSome) rfl with ⟨-, -, -, d', hc, -⟩ | ⟨e', d', hfails, hc⟩
    · rw [hc] at hcommit
      cases hcommit
    · rw [hc] at hcommit
      cases hcommit
      have hrolls := (rollback_of_commitFails h hfails hbackup
        (uninstallResult skillId backup.isSome) rfl).1.1 ⟨d₃, hrollback⟩
      exact (rolledBack_uninstall h hserde hfails hbackup rfl hrollback).2
        (spared_of_not_broken hbroken h hfails hrolls)

end

end LuaSkills.Lifecycle
