import LuaSkills.Lifecycle.Uninstall

/-!
# When a lifecycle change is all or nothing

The code writes a record in place and removes a backup tree in place, and it restores neither after
the call failed half way. `Change.Broken` collects the schedules on which that shows, and on every
other schedule the change is all or nothing.
-/

namespace LuaSkills.Lifecycle

/-- The serializers restore the records that the change writes. -/
def Change.Restores (serde : RecordSerde) (skillId : String) (d : Disk Place) : Change → Prop
  | .install c => c.Restores serde skillId
  | .update c => c.Restores serde skillId d
  | .uninstall _ => UninstallChange.Restores serde skillId d

/-- The fault schedules on which a change leaves neither the state before nor the state after. -/
def Change.Broken (m : SkillManager) (serde : RecordSerde) (skillId : String) (d : Disk Place) :
    Change → Prop
  | .install c => c.Broken m serde skillId d
  | .update c => c.Broken m serde skillId d
  | .uninstall c => c.Broken m serde skillId d

variable {m : SkillManager} {serde : RecordSerde} {skillId : String} {d : Disk Place}

theorem Change.atomic_iff {change : Change} (hserde : change.Restores serde skillId d) :
    change.Atomic m serde skillId d ↔ ¬ change.Broken m serde skillId d := by
  cases change with
  | install c => exact ⟨fun h hbroken => install_not_atomic hbroken h, install_atomic hserde⟩
  | update c => exact ⟨fun h hbroken => update_not_atomic hbroken h, update_atomic hserde⟩
  | uninstall c =>
    exact ⟨fun h hbroken => uninstall_not_atomic hserde hbroken h, uninstall_atomic hserde⟩

/-! ## A first install -/

section
private def codekit : String := "vulcan-codekit"

private def codekitManager : SkillManager := ⟨"USER", "/home/skills", "/home/state/USER"⟩

private def codekitSource : InstalledSkillSourceRecord :=
  ⟨.github, "LuaSkills/vulcan-codekit", some "v0.1.0"⟩

private def codekitArchive : Archive := ⟨"0.1.0", codekitSource, "installed"⟩

private def codekitRecord : InstalledSkillRecord :=
  stagedRecord codekit codekitArchive 1700000000000 none

private def codekitYaml : String :=
  "skill_id: vulcan-codekit\nversion: 0.1.0\nmanaged: true\nsource:\n  source_type: github\n  " ++
    "locator: LuaSkills/vulcan-codekit\n  tag: v0.1.0\ninstalled_at_unix_ms: 1700000000000\n"

/-- The serializers on the one record of the example. -/
private def codekitSerde : RecordSerde where
  renderInstall _ := codekitYaml
  parseInstall text := if text = codekitYaml then some codekitRecord else none
  renderDisabled _ := ""
  parseDisabled _ := none

private def clear : LayoutAnswers := ⟨.ok, .ok⟩

private def codekitUnpack : UnpackAnswers where
  clock := .ok 1699999999000
  probe := .ok
  stale := .ok
  create := .ok
  extracted := .ok [("skill.yaml", "version: 0.1.0"), ("lua/main.lua", "return 1")]
  manifest := .ok (codekit, "0.1.0")
  platform := .ok none
  dropped := .ok

/-- A first install whose only fault may be the write of its record. -/
private def codekitInstall (write : WriteAnswer) : InstallChange where
  plane := .skills
  declared := .ok false
  resolution := .ok codekitArchive
  prepare := ⟨codekitUnpack, .ok, .ok, .ok, .ok 1700000000000⟩
  commit := ⟨⟨clear, write⟩, .ok, .ok, ⟨clear, .ok⟩⟩
  rollback := ⟨.ok, .ok, .ok, .ok⟩

private theorem codekit_guarded :
    codekitManager.guardOperation .skills .install codekit = .ok () := by decide +kernel

private theorem codekit_stages :
    (codekitInstall write).Stages codekitManager codekit (fun _ => none) codekitArchive
      [("skill.yaml", "version: 0.1.0"), ("lua/main.lua", "return 1")] none where
  guarded := codekit_guarded
  undeclared := rfl
  resolved := rfl
  moves := ⟨⟨⟨_, rfl⟩, rfl, .inl rfl, rfl⟩, ⟨rfl, rfl, rfl⟩, rfl, rfl, rfl⟩

private theorem codekit_restores :
    (Change.install (codekitInstall write)).Restores codekitSerde codekit (fun _ => none) := by
  rintro archive stamp platform ⟨rfl⟩ ⟨rfl⟩ ⟨rfl⟩
  simp [RecordSerde.RestoresInstall, codekitSerde, codekitRecord]

/-- The write of the record is refused before it touches the file: the rollback takes the package away
and the state before is back. -/
theorem codekit_install_atomic :
    (Change.install (codekitInstall (.refused "permission denied"))).Restores codekitSerde codekit
        (fun _ => none) ∧
      (Change.install (codekitInstall (.refused "permission denied"))).Atomic codekitManager codekitSerde
        codekit (fun _ => none) := by
  refine ⟨codekit_restores, (Change.atomic_iff codekit_restores).2 fun hbroken => ?_⟩
  cases hbroken with
  | unstamped _ hstamp => cases hstamp
  | torn _ _ _ hviews => exact hviews rfl

/-- The write of the record fails after it truncated the file: the rollback returns Ok and an
unreadable record stays behind without its package. -/
theorem codekit_install_torn :
    ¬ (Change.install (codekitInstall (.torn 0 "no space left on device"))).Atomic codekitManager
      codekitSerde codekit (fun _ => none) := by
  refine install_not_atomic (.torn codekit_stages rfl (fun hwrites => ?_) ?_ rfl rfl)
  · cases hwrites.2.1
  · decide +kernel
end

end LuaSkills.Lifecycle
