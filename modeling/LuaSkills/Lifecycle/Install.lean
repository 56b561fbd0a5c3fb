import LuaSkills.Lifecycle.Specs

/-!
# Installs

An install is all or nothing except on two schedules: the clock fails after the package was moved, or
a failed write of the record changes what the record file reads as, which the rollback does not undo.
-/

namespace LuaSkills.Lifecycle

open Disk DiskProg Function
open SkillConfig (validateLuaskillsIdentifier)

variable {m : SkillManager} {serde : RecordSerde} {skillId : String} {d d' : Disk Place} {e : String}

/-! ## Managed states -/

def Agree (d' d : Disk Place) : Prop := ∀ q, q ≠ .staged → q ≠ .backup → d' q = d q

theorem managed_congr (hpackage : d' .package = d .package)
    (hinstall : d' (.install skillId) = d (.install skillId))
    (hdisabled : d' (.disabled skillId) = d (.disabled skillId)) :
    managed serde skillId d' = managed serde skillId d := by
  simp only [managed, hpackage, hinstall, hdisabled]

theorem Agree.managed (h : Agree d' d) : managed serde skillId d' = managed serde skillId d :=
  managed_congr (h _ nofun nofun) (h _ nofun nofun) (h _ nofun nofun)

theorem recordView_render {R : Type} {parse : String → Option R} {text : String} {r : R}
    (h : parse text = some r) : recordView parse (some (.file text)) = .record r := by
  simp [recordView, h]

namespace AllOrNothing
variable {T R : Type} {view : Disk Place → Managed} {next : Managed → Managed}
  {prepare : DiskProg Place T} {commit : T → DiskProg Place R} {rollback : T → DiskProg Place Unit}
  {d₁ : Disk Place}

theorem of_error (hprepare : prepare d = (.error e, d₁)) (hview : view d₁ = view d) :
    AllOrNothing view next prepare commit rollback d := by
  constructor
  · intro e' d' hx
    rw [hprepare] at hx
    cases hx
    exact hview
  · intro t d' r d₂ hx
    rw [hprepare] at hx
    cases hx
  · intro t d' e' d₂ d₃ hx
    rw [hprepare] at hx
    cases hx

theorem of_ok {t : T} (hprepare : prepare d = (.ok t, d₁))
    (hcommit : ∀ r d₂, commit t d₁ = (.ok r, d₂) → view d₂ = next (view d))
    (hrollback : ∀ e d₂ d₃, commit t d₁ = (.error e, d₂) → rollback t d₂ = (.ok (), d₃) →
      view d₃ = view d) : AllOrNothing view next prepare commit rollback d := by
  constructor
  · intro e d' hx
    rw [hprepare] at hx
    cases hx
  · intro t' d' r d₂ hx
    rw [hprepare] at hx
    cases hx
    exact hcommit r d₂
  · intro t' d' e d₂ d₃ hx
    rw [hprepare] at hx
    cases hx
    exact hrollback e d₂ d₃

end AllOrNothing

theorem guardOperation_eq_ok (h : m.guardOperation plane action skillId = .ok ()) :
    validateLuaskillsIdentifier skillId "skill_id" = .ok () := by
  obtain ⟨_, hid, -⟩ := Except.bind_eq_ok.1 h
  exact hid

namespace SkillManager
variable {a : PersistAnswers} {record : InstalledSkillRecord}

theorem persistInstallRecord_eq_ok {u : Unit} :
    m.persistInstallRecord serde a record d = (.ok u, d') ↔ a.Writes (d (.install record.skillId)) ∧
      d' = update d (.install record.skillId)
        (some (.file (serde.renderInstall record))) := persistRecord_eq_ok

variable (m serde d d' a record) in
theorem persistInstallRecord_eq_error :
    (∃ e, m.persistInstallRecord serde a record d = (.error e, d')) ↔
      ¬ a.Writes (d (.install record.skillId)) ∧ d' = update d (.install record.skillId)
        (a.leaves (d (.install record.skillId)) (serde.renderInstall record)) :=
  persistRecord_eq_error

end SkillManager

/-! ## Schedules that break an install -/

structure InstallChange.Stages (c : InstallChange) (m : SkillManager) (skillId : String)
    (d : Disk Place) (archive : Archive) (entries : List (String × String))
    (platform : Option String) : Prop where
  guarded : m.guardOperation c.plane .install skillId = .ok ()
  undeclared : c.declared = .ok false
  resolved : c.resolution = .ok archive
  moves : c.prepare.Moves skillId archive entries platform d

inductive InstallChange.Broken (c : InstallChange) (m : SkillManager) (serde : RecordSerde)
    (skillId : String) (d : Disk Place) : Prop where
  /-- The clock fails after the package was moved. -/
  | unstamped {archive entries platform error} :
    c.Stages m skillId d archive entries platform → c.prepare.stamp = .error error →
    Broken c m serde skillId d
  /-- A failed write leaves a record file that reads differently, and the rollback succeeds. -/
  | torn {archive entries platform stamp} :
    c.Stages m skillId d archive entries platform → c.prepare.stamp = .ok stamp →
    ¬ c.commit.record.Writes (d (.install skillId)) →
    recordView serde.parseInstall (c.commit.record.leaves (d (.install skillId))
      (serde.renderInstall (stagedRecord skillId archive stamp platform))) ≠
        recordView serde.parseInstall (d (.install skillId)) →
    c.rollback.target = .ok → c.rollback.removal = .ok → Broken c m serde skillId d

variable {c : InstallChange}

variable (m skillId d c) in
theorem prepareInstallSkill_cases :
    (∃ archive entries platform d', c.Stages m skillId d archive entries platform ∧
      d' .package = some (.dir entries) ∧ (∀ q, q ≠ .staged → q ≠ .package → d' q = d q) ∧
      m.prepareInstallSkill skillId c.plane c.declared c.resolution c.prepare d =
        match c.prepare.stamp with
        | .ok stamp =>
          let record := stagedRecord skillId archive stamp platform
          (.ok (.install ⟨appliedResult "installed" archive.message skillId archive record,
            record⟩), d')
        | .error e => (.error e, d')) ∨
    (c.archive = none ∧ ∃ result,
      m.prepareInstallSkill skillId c.plane c.declared c.resolution c.prepare d =
        (.ok (.immediate result), d)) ∨
    (∃ e d', m.prepareInstallSkill skillId c.plane c.declared c.resolution c.prepare d =
        (.error e, d') ∧ Agree d' d) := by
  unfold SkillManager.prepareInstallSkill
  cases hguard : m.guardOperation c.plane .install skillId with
  | error e => exact .inr (.inr ⟨e, d, rfl, fun _ _ _ => rfl⟩)
  | ok u =>
    rw [bind_of_ok (lift_eq_ok.2 ⟨rfl, rfl⟩)]
    cases hdeclared : c.declared with
    | error e => exact .inr (.inr ⟨e, d, rfl, fun _ _ _ => rfl⟩)
    | ok declared =>
      rw [bind_of_ok (lift_eq_ok.2 ⟨rfl, rfl⟩)]
      cases declared with
      | true => exact .inr (.inl ⟨by simp [InstallChange.archive, hdeclared], _, rfl⟩)
      | false =>
        simp only [Bool.false_eq_true, if_false]
        cases hresolution : c.resolution with
        | error e => exact .inr (.inr ⟨e, d, rfl, fun _ _ _ => rfl⟩)
        | ok archive =>
          rw [bind_of_ok (lift_eq_ok.2 ⟨rfl, rfl⟩)]
          rcases SkillManager.stageSkillInstallFromArchive_cases d m skillId archive c.prepare with
            ⟨entries, platform, d', hmoves, hpackage, hframe, hstage⟩ | ⟨-, e, d', hstage, hframe⟩
          · exact .inl ⟨archive, entries, platform, d', ⟨hguard, hdeclared, hresolution, hmoves⟩,
              hpackage, hframe, hstage⟩
          · exact .inr (.inr ⟨e, d', hstage, fun q hq _ => hframe q hq⟩)

theorem prepareInstallSkill_of_stages (h : c.Stages m skillId d archive entries platform) :
    ∃ d', d' .package = some (.dir entries) ∧ (∀ q, q ≠ .staged → q ≠ .package → d' q = d q) ∧
      m.prepareInstallSkill skillId c.plane c.declared c.resolution c.prepare d =
        match c.prepare.stamp with
        | .ok stamp =>
          let record := stagedRecord skillId archive stamp platform
          (.ok (.install ⟨appliedResult "installed" archive.message skillId archive record,
            record⟩), d')
        | .error e => (.error e, d') := by
  rw [SkillManager.prepareInstallSkill, bind_of_ok (lift_eq_ok.2 ⟨h.guarded, rfl⟩),
    bind_of_ok (lift_eq_ok.2 ⟨h.undeclared, rfl⟩)]
  simp only [Bool.false_eq_true, if_false]
  rw [bind_of_ok (lift_eq_ok.2 ⟨h.resolved, rfl⟩)]
  rcases SkillManager.stageSkillInstallFromArchive_cases d m skillId archive c.prepare with
    ⟨entries', platform', d', hmoves, hpackage, hframe, hstage⟩ | ⟨hnot, -⟩
  · cases h.moves.verifies.extracted.symm.trans hmoves.verifies.extracted
    cases h.moves.verifies.platform.symm.trans hmoves.verifies.platform
    exact ⟨d', hpackage, hframe, hstage⟩
  · exact absurd h.moves (hnot entries platform)

section
variable {a : CommitAnswers} {r : RollbackAnswers} {prepared : PreparedSkillInstall}

theorem commit_install_ok {result : SkillApplyResult} :
    m.commitPreparedSkillApply serde a (.install prepared) d = (.ok result, d') ↔
      m.persistInstallRecord serde a.record prepared.installRecord d = (.ok (), d') ∧
        result = prepared.result := by
  simp only [SkillManager.commitPreparedSkillApply, bind_eq_ok, pure_eq, Prod.mk.injEq,
    Except.ok.injEq]
  constructor
  · rintro ⟨_, _, h, hr, hd⟩
    exact ⟨hd ▸ h, hr⟩
  · rintro ⟨h, hr⟩
    exact ⟨(), d', h, hr, rfl⟩

theorem commit_install_error :
    m.commitPreparedSkillApply serde a (.install prepared) d = (.error e, d') ↔
      m.persistInstallRecord serde a.record prepared.installRecord d = (.error e, d') := by
  simp [SkillManager.commitPreparedSkillApply, bind_eq_error]

variable (m skillId d d' r prepared) in
theorem rollback_install_ok {u : Unit} :
    m.rollbackPreparedSkillApply skillId r (.install prepared) d = (.ok u, d') ↔
      r.target = .ok ∧ (d .package = none ∨ (∃ entries, d .package = some (.dir entries)) ∧
        r.removal = .ok) ∧ d' = update d .package none := by
  simp only [SkillManager.rollbackPreparedSkillApply, bind_eq_ok]
  constructor
  · rintro ⟨found, d₁, hp, h⟩
    cases found with
    | false =>
      obtain ⟨ht, hnone, rfl⟩ := probe_eq_false.1 hp
      cases h
      exact ⟨ht, .inl hnone, by rw [← hnone, update_eq_self]⟩
    | true =>
      obtain ⟨ht, ⟨node, hnode, hdir⟩, rfl⟩ := probe_eq_true.1 hp
      obtain ⟨entries, rfl⟩ := isDir_iff.1 hdir
      simp only [if_true, mapErr_eq_ok, removeDirAll_eq_ok] at h
      obtain ⟨hr, -, rfl⟩ := h
      exact ⟨ht, .inr ⟨⟨entries, hnode⟩, hr⟩, rfl⟩
  · rintro ⟨ht, hnone | ⟨⟨entries, hnode⟩, hr⟩, rfl⟩
    · refine ⟨false, d, probe_eq_false.2 ⟨ht, hnone, rfl⟩, ?_⟩
      have hsame : update d .package none = d := by rw [← hnone, update_eq_self]
      rw [hsame]
      rfl
    · refine ⟨true, d, probe_eq_true.2 ⟨ht, ⟨_, hnode, rfl⟩, rfl⟩, ?_⟩
      simp only [if_true, mapErr_eq_ok, removeDirAll_eq_ok]
      exact ⟨hr, ⟨entries, hnode⟩, trivial⟩

end

/-- The serializer restores the record that the install writes. -/
def InstallChange.Restores (c : InstallChange) (serde : RecordSerde) (skillId : String) : Prop :=
  ∀ archive stamp platform, c.resolution = .ok archive → c.prepare.stamp = .ok stamp →
    c.prepare.unpack.platform = .ok platform →
      serde.RestoresInstall (stagedRecord skillId archive stamp platform)

theorem install_not_atomic (h : c.Broken m serde skillId d) :
    ¬ (Change.install c).Atomic m serde skillId d := by
  intro hatomic
  cases h with
  | unstamped hstages hstamp =>
    obtain ⟨d', hpackage, -, hprepare⟩ := prepareInstallSkill_of_stages hstages
    rw [hstamp] at hprepare
    have hsame := congrArg Managed.package (hatomic.prepare_error _ _ hprepare)
    simp [managed, hpackage, hstages.moves.absent] at hsame
  | @torn archive entries platform stamp hstages hstamp hwrites hview htarget hremoval =>
    obtain ⟨d₁, hpackage, hframe, hprepare⟩ := prepareInstallSkill_of_stages hstages
    rw [hstamp] at hprepare
    have hrecord : d₁ (.install skillId) = d (.install skillId) := hframe _ nofun nofun
    obtain ⟨e, hpersist⟩ := (SkillManager.persistInstallRecord_eq_error m serde d₁ _
      c.commit.record (stagedRecord skillId archive stamp platform)).2 ⟨by rwa [stagedRecord, hrecord], rfl⟩
    have hrollback := (rollback_install_ok m skillId
      (update d₁ (.install skillId) (c.commit.record.leaves (d₁ (.install skillId))
        (serde.renderInstall (stagedRecord skillId archive stamp platform)))) _ c.rollback
      ⟨appliedResult "installed" archive.message skillId archive
        (stagedRecord skillId archive stamp platform), stagedRecord skillId archive stamp platform⟩
      (u := ())).2
        ⟨htarget, .inr ⟨⟨entries, by simpa using hpackage⟩, hremoval⟩, rfl⟩
    have hsame := congrArg Managed.install
      (hatomic.rollback_ok _ _ _ _ _ hprepare (commit_install_error.2 hpersist) hrollback)
    rw [hrecord] at hsame
    exact hview (by simpa [managed] using hsame)

theorem install_atomic (hserde : c.Restores serde skillId) (h : ¬ c.Broken m serde skillId d) :
    (Change.install c).Atomic m serde skillId d := by
  rcases prepareInstallSkill_cases m skillId d c with
    ⟨archive, entries, platform, d₁, hstages, hpackage, hframe, hprepare⟩ |
    ⟨hnone, result, hprepare⟩ | ⟨e, d₁, hprepare, hagree⟩
  · have hrecord : d₁ (.install skillId) = d (.install skillId) := hframe _ nofun nofun
    have hdisabled : d₁ (.disabled skillId) = d (.disabled skillId) := hframe _ nofun nofun
    have hverifies := hstages.moves.verifies
    cases hstamp : c.prepare.stamp with
    | error e => exact absurd (.unstamped hstages hstamp) h
    | ok stamp =>
      rw [hstamp] at hprepare
      have hparse : serde.RestoresInstall (stagedRecord skillId archive stamp platform) :=
        hserde archive stamp platform hstages.resolved hstamp hverifies.platform
      refine .of_ok hprepare (fun result d₂ hcommit => ?_) fun e d₂ d₃ hcommit hrollback => ?_
      · obtain ⟨-, rfl⟩ := SkillManager.persistInstallRecord_eq_ok.1 (commit_install_ok.1 hcommit).1
        have hview := recordView_render hparse
        simp [managed, Change.next, staged, InstallChange.archive, hstages.undeclared,
          hstages.resolved, hverifies.extracted, hverifies.platform, hstamp, applied, hpackage,
          hdisabled, stagedRecord] at hview ⊢
        exact hview
      · obtain ⟨hwrites, rfl⟩ := (SkillManager.persistInstallRecord_eq_error ..).1
          ⟨e, commit_install_error.1 hcommit⟩
        obtain ⟨htarget, hremoval, rfl⟩ := (rollback_install_ok ..).1 hrollback
        have hremoved : c.rollback.removal = .ok := by
          rcases hremoval with hnone | ⟨-, hremoved⟩
          · simp [hpackage] at hnone
          · exact hremoved
        have hview : recordView serde.parseInstall (c.commit.record.leaves (d (.install skillId))
            (serde.renderInstall (stagedRecord skillId archive stamp platform))) =
            recordView serde.parseInstall (d (.install skillId)) := by
          refine not_not.1 fun hne => h (.torn hstages hstamp ?_ hne htarget hremoved)
          rwa [← hrecord]
        refine Managed.ext (by simp [managed, hstages.moves.absent]) ?_
          (by simp [managed, stagedRecord, hdisabled])
        rw [← hrecord] at hview
        simpa [managed, stagedRecord, hrecord] using hview
  · refine .of_ok hprepare (fun result d₂ hcommit => ?_) fun e d₂ d₃ hcommit => ?_
    · cases hcommit
      simp [Change.next, hnone, staged]
    · cases hcommit
  · exact .of_error hprepare hagree.managed

end LuaSkills.Lifecycle
