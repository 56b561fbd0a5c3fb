import LuaSkills.Lifecycle.Transactions

/-!
# What the parts of a change do

For each function the answers under which it succeeds, and the disk it leaves.
-/

namespace LuaSkills.Lifecycle

open Disk DiskProg Function
open SkillConfig (validateLuaskillsIdentifier)

variable {d d' : Disk Place} {e : String} {u : Unit} {b : Bool}

/-! ## Probes -/

section
variable {kind : DiskNode → Bool} {mistyped failed path : String} {a : IoAnswer} {p : Place}

theorem probe_eq_true : probe kind mistyped failed a p path d = (.ok true, d') ↔
    a = .ok ∧ (∃ node, d p = some node ∧ kind node = true) ∧ d' = d := by
  simp only [probe, bind_eq_ok, mapErr_eq_ok, metadata_eq_ok]
  constructor
  · rintro ⟨node, d₁, ⟨ha, hp, rfl⟩, h⟩
    cases node with
    | none => cases h
    | some node =>
      by_cases hk : kind node = true
      · simp only [hk, if_true, pure_eq, Prod.mk.injEq, true_and] at h
        exact ⟨ha, ⟨node, hp, hk⟩, h⟩
      · simp [hk] at h
  · rintro ⟨ha, ⟨node, hp, hk⟩, rfl⟩
    exact ⟨some node, d', ⟨ha, hp, rfl⟩, by simp [hk, pure_eq]⟩

theorem probe_eq_false : probe kind mistyped failed a p path d = (.ok false, d') ↔
    a = .ok ∧ d p = none ∧ d' = d := by
  simp only [probe, bind_eq_ok, mapErr_eq_ok, metadata_eq_ok]
  constructor
  · rintro ⟨node, d₁, ⟨ha, hp, rfl⟩, h⟩
    cases node with
    | none =>
      simp only [pure_eq, Prod.mk.injEq, true_and] at h
      exact ⟨ha, hp, h⟩
    | some node => by_cases hk : kind node = true <;> simp [hk] at h
  · rintro ⟨ha, hp, rfl⟩
    exact ⟨none, d', ⟨ha, hp, rfl⟩, by simp [pure_eq]⟩

theorem probe_snd : (probe kind mistyped failed a p path d).2 = d := by
  unfold probe
  cases a with
  | fail e => rfl
  | ok =>
    rw [bind_of_ok (mapErr_eq_ok.2 (metadata_eq_ok.2 ⟨rfl, rfl, rfl⟩))]
    cases hp : d p with
    | none => rfl
    | some node => by_cases hk : kind node = true <;> simp [hk, lift, pure_apply]

theorem probe_error (h : probe kind mistyped failed a p path d = (.error e, d')) : d' = d := by
  have := @probe_snd d kind mistyped failed path a p
  rw [h] at this
  exact this

theorem Confined.probe : Confined q (probe kind mistyped failed a p path) :=
  fun _ _ _ => congrFun probe_snd _

end

theorem isDir_iff : isDir node = true ↔ ∃ entries, node = .dir entries := by
  cases node <;> simp [isDir]

theorem isFile_iff : isFile node = true ↔ ∃ text, node = .file text := by
  cases node <;> simp [isFile]

/-! ## Record files -/

def LayoutAnswers.Clear (a : LayoutAnswers) : Prop :=
  a.disabledRoot = .ok ∧ a.installRecordRoot = .ok

instance (a : LayoutAnswers) : Decidable a.Clear := by
  unfold LayoutAnswers.Clear
  infer_instance

/-- The rewrite of a record file that holds `node` succeeds. -/
def PersistAnswers.Writes (a : PersistAnswers) (node : Option DiskNode) : Prop :=
  a.layout.Clear ∧ a.write = .ok ∧ ∀ entries, node ≠ some (.dir entries)

/-- What a record file holds after a rewrite, successful or not. -/
def PersistAnswers.leaves (a : PersistAnswers) (node : Option DiskNode) (text : String) :
    Option DiskNode :=
  if a.layout.Clear then
    match a.write, node with
    | .refused _, _ => node
    | _, some (.dir _) => node
    | .ok, _ => some (.file text)
    | .torn length _, _ => some (.file (cut length text))
  else node

/-- The file exists and its removal succeeds, or it is confirmed absent. -/
def RemoveAnswers.Removes (a : RemoveAnswers) (node : Option DiskNode) : Prop :=
  a.probe = .ok ∧ (node = none ∨ (∃ text, node = some (.file text)) ∧ a.remove = .ok)

namespace SkillManager
variable {m : SkillManager} {skillId : String}

theorem ensureStateLayout_eq_ok : m.ensureStateLayout a d = (.ok u, d') ↔ a.Clear ∧ d' = d := by
  simp only [ensureStateLayout, bind_eq_ok, mapErr_eq_ok, createDirAll_eq_ok, LayoutAnswers.Clear]
  constructor
  · rintro ⟨_, _, ⟨h₁, rfl⟩, h₂, rfl⟩
    exact ⟨⟨h₁, h₂⟩, rfl⟩
  · rintro ⟨⟨h₁, h₂⟩, rfl⟩
    exact ⟨(), _, ⟨h₁, rfl⟩, h₂, rfl⟩

theorem ensureStateLayout_snd : (m.ensureStateLayout a d).2 = d := by
  rcases h : m.ensureStateLayout a d with ⟨r, d₁⟩
  cases r with
  | ok u => exact (ensureStateLayout_eq_ok.1 h).2
  | error e =>
    simp only [ensureStateLayout, bind_eq_error, mapErr_eq_error, mapErr_eq_ok,
      createDirAll_eq_error, createDirAll_eq_ok] at h
    rcases h with ⟨_, ⟨_, rfl⟩, _⟩ | ⟨_, _, ⟨_, rfl⟩, _, ⟨_, rfl⟩, _⟩ <;> rfl

section
variable {a : PersistAnswers} {place : Place} {path text : String}

theorem persistRecord_eq_ok :
    m.persistRecord a place path text d = (.ok u, d') ↔
      a.Writes (d place) ∧ d' = update d place (some (.file text)) := by
  simp only [persistRecord, bind_eq_ok, mapErr_eq_ok, ensureStateLayout_eq_ok,
    PersistAnswers.Writes]
  constructor
  · rintro ⟨_, _, ⟨hl, rfl⟩, hw⟩
    unfold Disk.write at hw
    split at hw <;> simp_all
  · rintro ⟨⟨hl, hw, hdir⟩, rfl⟩
    refine ⟨(), d, ⟨hl, rfl⟩, ?_⟩
    unfold Disk.write
    rw [hw]
    split <;> simp_all

variable (d m a place path text) in
theorem persistRecord_snd : (m.persistRecord a place path text d).2 =
    update d place (a.leaves (d place) text) := by
  rcases h : m.ensureStateLayout a.layout d with ⟨r, d₁⟩
  have hd : d₁ = d := by simpa [h] using ensureStateLayout_snd (m := m) (a := a.layout) (d := d)
  subst hd
  cases r with
  | error e =>
    have hl : ¬ a.layout.Clear := fun hl => by
      rw [ensureStateLayout_eq_ok (u := ()).2 ⟨hl, rfl⟩] at h
      cases h
    rw [persistRecord, bind_of_error h]
    simp [PersistAnswers.leaves, hl]
  | ok u =>
    have hl : a.layout.Clear := (ensureStateLayout_eq_ok.1 h).1
    rw [persistRecord, bind_of_ok h]
    simp only [mapErr, Disk.write, PersistAnswers.leaves, hl, if_true]
    cases a.write <;> cases hp : d₁ place with
    | none => simp [hp]
    | some node => cases node <;> simp [← hp]

theorem persistRecord_eq_error : (∃ e, m.persistRecord a place path text d = (.error e, d')) ↔
    ¬ a.Writes (d place) ∧ d' = update d place (a.leaves (d place) text) := by
  have hsnd := persistRecord_snd d m a place path text
  rcases h : m.persistRecord a place path text d with ⟨r, d₁⟩
  rw [h] at hsnd
  cases r with
  | ok u => simp [(persistRecord_eq_ok.1 h).1]
  | error e =>
    have hw : ¬ a.Writes (d place) := fun hw => by
      rw [persistRecord_eq_ok (u := ()).2 ⟨hw, rfl⟩] at h
      cases h
    subst hsnd
    simp [hw, eq_comm]

end

section
variable {a : IoAnswer} {place : Place} {path : String}
  {mistyped failed : String}

theorem removeRecord_eq_ok :
    removeRecord (probe isFile mistyped failed p place path) a place path d = (.ok b, d') ↔
      p = .ok ∧ (d place = none ∨ (∃ text, d place = some (.file text)) ∧ a = .ok) ∧
        b = (d place).isSome ∧ d' = update d place none := by
  simp only [removeRecord, bind_eq_ok]
  constructor
  · rintro ⟨found, d₁, hp, h⟩
    cases found with
    | false =>
      obtain ⟨rfl, hnone, rfl⟩ := probe_eq_false.1 hp
      simp only [Bool.false_eq_true, if_false, pure_eq, Prod.mk.injEq, Except.ok.injEq] at h
      obtain ⟨rfl, rfl⟩ := h
      exact ⟨rfl, .inl hnone, by simp [hnone], by rw [← hnone, update_eq_self]⟩
    | true =>
      obtain ⟨rfl, ⟨node, hnode, hfile⟩, rfl⟩ := probe_eq_true.1 hp
      obtain ⟨text, rfl⟩ := isFile_iff.1 hfile
      simp only [if_true, bind_eq_ok, mapErr_eq_ok, removeFile_eq_ok, pure_eq, Prod.mk.injEq,
        Except.ok.injEq] at h
      obtain ⟨_, _, ⟨rfl, -, rfl⟩, rfl, rfl⟩ := h
      exact ⟨rfl, .inr ⟨⟨text, hnode⟩, rfl⟩, by simp [hnode], rfl⟩
  · rintro ⟨rfl, hnone | ⟨⟨text, hnode⟩, rfl⟩, rfl, rfl⟩
    · refine ⟨false, d, probe_eq_false.2 ⟨rfl, hnone, rfl⟩, ?_⟩
      have hsame : update d place none = d := by rw [← hnone, update_eq_self]
      rw [hsame, hnone]
      rfl
    · refine ⟨true, d, probe_eq_true.2 ⟨rfl, ⟨_, hnode, rfl⟩, rfl⟩, ?_⟩
      simp only [if_true, bind_eq_ok, mapErr_eq_ok, removeFile_eq_ok, pure_eq]
      exact ⟨(), _, ⟨trivial, ⟨text, hnode⟩, rfl⟩, by simp [hnode]⟩

theorem removeRecord_error
    (h : removeRecord (probe isFile mistyped failed p place path) a place path d = (.error e, d')) :
    d' = d := by
  simp only [removeRecord, bind_eq_error] at h
  rcases h with hp | ⟨found, d₁, hp, h⟩
  · exact probe_error hp
  · cases found with
    | false => cases h
    | true =>
      obtain ⟨-, -, rfl⟩ := probe_eq_true.1 hp
      simp only [if_true, bind_eq_error, mapErr_eq_error] at h
      rcases h with ⟨_, h, -⟩ | ⟨_, _, _, h⟩
      · exact removeFile_error h
      · cases h

theorem readRecord_eq_ok {R : Type} {parse : String → Option R} {p : IoAnswer} {found : Option R} :
    readRecord (probe isFile mistyped failed p place path) a place path parse d = (.ok found, d') ↔
      p = .ok ∧ d' = d ∧ match found with
        | none => d place = none
        | some r => a = .ok ∧ recordView parse (d place) = .record r := by
  simp only [readRecord, bind_eq_ok]
  constructor
  · rintro ⟨b, d₁, hp, h⟩
    cases b with
    | false =>
      obtain ⟨rfl, hnone, rfl⟩ := probe_eq_false.1 hp
      cases h
      exact ⟨rfl, rfl, hnone⟩
    | true =>
      obtain ⟨rfl, ⟨node, hnode, hfile⟩, rfl⟩ := probe_eq_true.1 hp
      simp only [if_true, bind_eq_ok, mapErr_eq_ok, readToString_eq_ok, lift_eq_ok, okOr_eq_ok,
        pure_eq, Prod.mk.injEq, Except.ok.injEq] at h
      obtain ⟨text, _, ⟨rfl, htext, rfl⟩, r, _, ⟨hparse, rfl⟩, rfl, rfl⟩ := h
      exact ⟨rfl, rfl, rfl, by simp [htext, recordView, hparse]⟩
  · rintro ⟨rfl, rfl, h⟩
    cases found with
    | none => exact ⟨false, d', probe_eq_false.2 ⟨rfl, h, rfl⟩, rfl⟩
    | some r =>
      obtain ⟨rfl, hview⟩ := h
      cases hnode : d' place with
      | none => simp [hnode, recordView] at hview
      | some node =>
        cases node with
        | dir entries => simp [hnode, recordView] at hview
        | file text =>
          have hparse : parse text = some r := by
            simp only [hnode, recordView] at hview
            split at hview <;> simp_all
          refine ⟨true, d', probe_eq_true.2 ⟨rfl, ⟨_, hnode, rfl⟩, rfl⟩, ?_⟩
          simp only [if_true, bind_eq_ok, mapErr_eq_ok, readToString_eq_ok, lift_eq_ok, okOr_eq_ok,
            pure_eq]
          exact ⟨text, d', ⟨trivial, hnode, rfl⟩, r, d', ⟨hparse, rfl⟩, rfl⟩

theorem readRecord_error {R : Type} {parse : String → Option R} {p : IoAnswer}
    (h : readRecord (probe isFile mistyped failed p place path) a place path parse d =
      (.error e, d')) : d' = d := by
  simp only [readRecord, bind_eq_error] at h
  rcases h with hp | ⟨found, d₁, hp, h⟩
  · exact probe_error hp
  · cases found with
    | false => cases h
    | true =>
      obtain ⟨-, -, rfl⟩ := probe_eq_true.1 hp
      simp only [if_true, bind_eq_error, mapErr_eq_error, mapErr_eq_ok, readToString_eq_ok,
        lift_eq_error, lift_eq_ok] at h
      rcases h with ⟨_, h, -⟩ | ⟨_, _, ⟨_, _, rfl⟩, ⟨_, rfl⟩ | ⟨_, _, _, h⟩⟩
      · exact readToString_error h
      · rfl
      · cases h

end

section
variable (hid : validateLuaskillsIdentifier skillId "skill_id" = .ok ())
include hid

theorem removeInstallRecord_eq_ok : m.removeInstallRecord a skillId d = (.ok b, d') ↔
      a.Removes (d (.install skillId)) ∧ b = (d (.install skillId)).isSome ∧
        d' = update d (.install skillId) none := by
  rw [removeInstallRecord, bind_of_ok (lift_eq_ok.2 ⟨hid, rfl⟩)]
  rw [installRecordPathIsFile, removeRecord_eq_ok, RemoveAnswers.Removes, and_assoc]

theorem removeInstallRecord_error (h : m.removeInstallRecord a skillId d = (.error e, d')) : d' = d := by
  rw [removeInstallRecord, bind_of_ok (lift_eq_ok.2 ⟨hid, rfl⟩)] at h
  exact removeRecord_error h

theorem removeDisabledRecord_eq_ok : m.removeDisabledRecord a skillId d = (.ok b, d') ↔
      a.layout.Clear ∧ a.Removes (d (.disabled skillId)) ∧ b = (d (.disabled skillId)).isSome ∧
        d' = update d (.disabled skillId) none := by
  rw [removeDisabledRecord, bind_of_ok (lift_eq_ok.2 ⟨hid, rfl⟩), bind_eq_ok]
  simp only [ensureStateLayout_eq_ok]
  constructor
  · rintro ⟨_, _, ⟨hl, rfl⟩, h⟩
    rw [disabledRecordPathIsFile, removeRecord_eq_ok] at h
    exact ⟨hl, ⟨h.1, h.2.1⟩, h.2.2⟩
  · rintro ⟨hl, ⟨hp, ha⟩, h⟩
    exact ⟨(), d, ⟨hl, rfl⟩, removeRecord_eq_ok.2 ⟨hp, ha, h⟩⟩

theorem removeDisabledRecord_error (h : m.removeDisabledRecord a skillId d = (.error e, d')) : d' = d := by
  rw [removeDisabledRecord, bind_of_ok (lift_eq_ok.2 ⟨hid, rfl⟩), bind_eq_error] at h
  rcases h with h | ⟨_, _, hl, h⟩
  · simpa [h] using ensureStateLayout_snd (m := m) (a := a.layout) (d := d)
  · obtain ⟨-, rfl⟩ := ensureStateLayout_eq_ok.1 hl
    exact removeRecord_error h

end

end SkillManager

/-! ## Staging -/

structure UnpackAnswers.Opens (a : UnpackAnswers) (d : Disk Place) : Prop where
  clock : ∃ timestamp, a.clock = .ok timestamp
  probe : a.probe = .ok
  stale : d .staged = none ∨ (∃ entries, d .staged = some (.dir entries)) ∧ a.stale = .ok
  create : a.create = .ok

structure UnpackAnswers.Verifies (a : UnpackAnswers) (skillId : String) (archive : Archive)
    (entries : List (String × String)) (platform : Option String) : Prop where
  extracted : a.extracted = .ok entries
  manifest : a.manifest = .ok (skillId, archive.version)
  platform : a.platform = .ok platform

namespace SkillManager
variable {m : SkillManager} {skillId : String} {labels : StagingLabels}
  {a : UnpackAnswers} {archive : Archive}

theorem openStagingRoot_eq_ok : m.openStagingRoot skillId labels a d = (.ok u, d') ↔
    a.Opens d ∧ d' = update d .staged none := by
  simp only [openStagingRoot, bind_eq_ok, lift_eq_ok]
  constructor
  · rintro ⟨timestamp, _, ⟨hclock, rfl⟩, found, d₁, hp, h⟩
    cases found with
    | false =>
      obtain ⟨ha, hnone, rfl⟩ := probe_eq_false.1 hp
      simp only [Bool.false_eq_true, if_false, mapErr_eq_ok, createDirAll_eq_ok] at h
      obtain ⟨hcreate, rfl⟩ := h
      exact ⟨⟨⟨timestamp, hclock⟩, ha, .inl hnone, hcreate⟩,
        by rw [← hnone, update_eq_self]⟩
    | true =>
      obtain ⟨ha, ⟨node, hnode, hdir⟩, rfl⟩ := probe_eq_true.1 hp
      obtain ⟨entries, rfl⟩ := isDir_iff.1 hdir
      simp only [if_true, bind_eq_ok, mapErr_eq_ok, createDirAll_eq_ok, removeDirAll_eq_ok] at h
      obtain ⟨_, _, ⟨hstale, -, rfl⟩, hcreate, rfl⟩ := h
      exact ⟨⟨⟨timestamp, hclock⟩, ha, .inr ⟨⟨entries, hnode⟩, hstale⟩, hcreate⟩, rfl⟩
  · rintro ⟨⟨⟨timestamp, hclock⟩, ha, hnone | ⟨⟨entries, hnode⟩, hstale⟩, hcreate⟩, rfl⟩
    · refine ⟨timestamp, d, ⟨hclock, rfl⟩, false, d, probe_eq_false.2 ⟨ha, hnone, rfl⟩, ?_⟩
      have hsame : update d .staged none = d := by rw [← hnone, update_eq_self]
      simp only [Bool.false_eq_true, if_false, mapErr_eq_ok, createDirAll_eq_ok]
      exact ⟨hcreate, hsame⟩
    · refine ⟨timestamp, d, ⟨hclock, rfl⟩, true, d,
        probe_eq_true.2 ⟨ha, ⟨_, hnode, rfl⟩, rfl⟩, ?_⟩
      simp only [if_true, bind_eq_ok, mapErr_eq_ok, createDirAll_eq_ok, removeDirAll_eq_ok]
      exact ⟨(), _, ⟨hstale, ⟨entries, hnode⟩, rfl⟩, hcreate, rfl⟩

theorem openStagingRoot_confined :
    Confined .staged (m.openStagingRoot skillId labels a) := by
  refine .bind .lift fun timestamp => .bind Confined.probe fun found => ?_
  cases found with
  | false => exact .mapErr .createDirAll
  | true => exact .bind (.mapErr .removeDirAll) fun _ => .mapErr .createDirAll

theorem extractVerified_eq_ok : extractVerified skillId labels a archive d = (.ok platform, d') ↔
      ∃ entries, a.Verifies skillId archive entries platform ∧
        d' = update d .staged (some (.dir entries)) := by
  simp only [extractVerified, bind_eq_ok, lift_eq_ok, refuseIf_eq_ok]
  constructor
  · rintro ⟨_, d₁, hx, ⟨metaId, metaVersion⟩, _, ⟨hm, rfl⟩, _, _, ⟨hid, rfl⟩, _, _, ⟨hv, rfl⟩, hp,
      rfl⟩
    unfold extractSkillPackage at hx
    split at hx
    · next entries he =>
      cases hx
      obtain rfl : metaId = skillId := not_not.1 hid
      obtain rfl : metaVersion = archive.version := not_not.1 hv
      exact ⟨entries, ⟨he, hm, hp⟩, rfl⟩
    · cases hx
  · rintro ⟨entries, ⟨he, hm, hp⟩, rfl⟩
    refine ⟨(), _, by simp only [extractSkillPackage, he], _, _, ⟨hm, rfl⟩, (), _, ⟨not_not.2 rfl, rfl⟩,
      (), _, ⟨not_not.2 rfl, rfl⟩, hp, rfl⟩

theorem extractVerified_confined :
    Confined .staged (extractVerified skillId labels a archive) := by
  have hx : Confined .staged (extractSkillPackage a.extracted) := by
    intro d q hq
    unfold extractSkillPackage
    split <;> simp [update_of_ne hq]
  exact .bind hx fun _ => .bind .lift fun _ => .bind .lift fun _ => .bind .lift fun _ => .lift

/-- The staging root is not made; or what it guards stops; or the package is staged and only the
clock can still fail. -/
theorem guarded_cases {T U : Type} {guarded : DiskProg Place T} {dropped cleanup : RemovalAnswer}
    {stamp : Except String ℕ} {f : T → ℕ → U} {x : DiskProg Place U}
    (hx : x = do
      m.openStagingRoot skillId labels a
      let t ← onError guarded (removeDirAll dropped .staged)
      let _ ← attempt (removeDirAll cleanup .staged)
      let stamp ← lift stamp
      return f t stamp) :
    (¬ a.Opens d ∧ ∃ e d', x d = (.error e, d') ∧ ∀ q, q ≠ .staged → d' q = d q) ∨
    (a.Opens d ∧ ∃ e d₁ d', guarded (update d .staged none) = (.error e, d₁) ∧
      x d = (.error e, d') ∧ ∀ q, q ≠ .staged → d' q = d₁ q) ∨
    (a.Opens d ∧ ∃ t d₁ d', guarded (update d .staged none) = (.ok t, d₁) ∧
      (∀ q, q ≠ .staged → d' q = d₁ q) ∧
      x d = match stamp with
        | .ok stamp => (.ok (f t stamp), d')
        | .error e => (.error e, d')) := by
  subst hx
  have hremove : ∀ r : RemovalAnswer, Confined Place.staged (removeDirAll r .staged) :=
    fun _ => Confined.removeDirAll
  rcases hopen : m.openStagingRoot skillId labels a d with ⟨_ | u, d₁⟩
  · refine .inl ⟨fun h => ?_, _, d₁, bind_of_error hopen,
      fun q hq => openStagingRoot_confined.apply hopen hq⟩
    rw [openStagingRoot_eq_ok (u := ()).2 ⟨h, rfl⟩] at hopen
    cases hopen
  obtain ⟨hopens, rfl⟩ := openStagingRoot_eq_ok.1 hopen
  rw [bind_of_ok hopen]
  rcases hs : guarded (update d .staged none) with ⟨e | t, d₂⟩
  · refine .inr (.inl ⟨hopens, e, d₂, _, rfl, bind_of_error (onError_eq_error.2 ⟨d₂, hs, rfl⟩),
      fun q hq => hremove dropped d₂ q hq⟩)
  · refine .inr (.inr ⟨hopens, t, d₂, (removeDirAll cleanup .staged d₂).2, rfl,
      fun q hq => hremove cleanup d₂ q hq, ?_⟩)
    rw [bind_of_ok (onError_eq_ok.2 hs), bind_of_ok (attempt_eq.2 rfl)]
    cases stamp <;> rfl

end SkillManager

/-! ## Install -/

structure InstallAnswers.Moves (a : InstallAnswers) (skillId : String) (archive : Archive)
    (entries : List (String × String)) (platform : Option String) (d : Disk Place) : Prop where
  opens : a.unpack.Opens d
  verifies : a.unpack.Verifies skillId archive entries platform
  target : a.target = .ok
  absent : d .package = none
  move : a.move = .ok

/-- The disk with a package in its place and nothing staged. -/
def placed (d : Disk Place) (entries : List (String × String)) : Disk Place :=
  update (update d .staged none) .package (some (.dir entries))

namespace SkillManager
variable {m : SkillManager} {skillId : String} {archive : Archive}
  {a : InstallAnswers} {entries : List (String × String)} {platform : Option String}

theorem stageInstallPackage_eq_ok :
    m.stageInstallPackage skillId a archive d = (.ok platform, d') ↔
      ∃ entries, a.unpack.Verifies skillId archive entries platform ∧ a.target = .ok ∧
        d .package = none ∧ a.move = .ok ∧ d' = placed d entries := by
  simp only [stageInstallPackage, bind_eq_ok, extractVerified_eq_ok]
  constructor
  · rintro ⟨_, _, ⟨entries, hver, rfl⟩, found, d₂, hp, h⟩
    cases found with
    | true => simp [bind_eq_ok] at h
    | false =>
      obtain ⟨htarget, hnone, rfl⟩ := probe_eq_false.1 hp
      simp only [Bool.false_eq_true, if_false, bind_eq_ok, mapErr_eq_ok, rename_eq_ok, pure_eq,
        Prod.mk.injEq, Except.ok.injEq] at h
      obtain ⟨_, _, ⟨hmove, node, hnode, -, rfl⟩, rfl, rfl⟩ := h
      rw [update_self, Option.some.injEq] at hnode
      subst hnode
      exact ⟨entries, hver, htarget, by simpa using hnone, hmove, by rw [update_idem]; rfl⟩
  · rintro ⟨entries, hver, htarget, habsent, hmove, rfl⟩
    refine ⟨platform, _, ⟨entries, hver, rfl⟩, false, _,
      probe_eq_false.2 ⟨htarget, by simpa using habsent, rfl⟩, ?_⟩
    simp only [Bool.false_eq_true, if_false, bind_eq_ok, mapErr_eq_ok, rename_eq_ok, pure_eq]
    refine ⟨(), _, ⟨hmove, .dir entries, update_self .., ?_, rfl⟩, ?_⟩
    · exact .inl (by simpa using habsent)
    · rw [update_idem]
      rfl

theorem stageInstallPackage_error (h : m.stageInstallPackage skillId a archive d = (.error e, d'))
    (hq : q ≠ .staged) : d' q = d q := by
  simp only [stageInstallPackage, bind_eq_error] at h
  rcases h with h | ⟨_, d₁, hver, h | ⟨found, d₂, hp, h⟩⟩
  · exact extractVerified_confined.apply h hq
  · rw [probe_error h, extractVerified_confined.apply hver hq]
  · have hd : d₂ = d₁ := by
      have hsnd := @probe_snd d₁ isDir "Skill package path is not a directory"
        "Failed to inspect skill package directory" (m.targetDir skillId) a.target .package
      rwa [show probe isDir _ _ _ _ _ d₁ = _ from hp] at hsnd
    subst hd
    rw [← extractVerified_confined.apply hver hq]
    cases found with
    | true => simp_all [bind_eq_error]
    | false =>
      simp only [Bool.false_eq_true, if_false, bind_eq_error, mapErr_eq_error] at h
      rcases h with ⟨_, h, -⟩ | ⟨_, _, _, h⟩
      · rw [rename_error h]
      · cases h

variable (d m skillId archive a) in
/-- Either the package reaches its place, and only the clock can still fail, or nothing but the
staging root changed. -/
theorem stageSkillInstallFromArchive_cases :
    (∃ entries platform d', a.Moves skillId archive entries platform d ∧
      d' .package = some (.dir entries) ∧ (∀ q, q ≠ .staged → q ≠ .package → d' q = d q) ∧
      m.stageSkillInstallFromArchive skillId a archive d =
        match a.stamp with
        | .ok stamp =>
          let record := stagedRecord skillId archive stamp platform
          (.ok (.install ⟨appliedResult "installed" archive.message skillId archive record,
            record⟩), d')
        | .error e => (.error e, d')) ∨
    (∀ entries platform, ¬ a.Moves skillId archive entries platform d) ∧
      ∃ e d', m.stageSkillInstallFromArchive skillId a archive d = (.error e, d') ∧
        ∀ q, q ≠ .staged → d' q = d q := by
  have hcases := guarded_cases (d := d) (x := m.stageSkillInstallFromArchive skillId a archive) rfl
  rcases hcases with ⟨hopens, e, d', hx, hd'⟩ | ⟨hopens, e, d₁, d', hs, hx, hd'⟩ |
    ⟨hopens, platform, d₁, d', hs, hd', hx⟩
  · exact .inr ⟨fun _ _ h => hopens h.opens, e, d', hx, hd'⟩
  · refine .inr ⟨fun entries platform h => ?_, e, d', hx, fun q hq => ?_⟩
    · rw [stageInstallPackage_eq_ok.2 ⟨entries, h.verifies, h.target, by simpa using h.absent,
        h.move, rfl⟩] at hs
      cases hs
    · rw [hd' q hq, stageInstallPackage_error hs hq, update_of_ne hq]
  · obtain ⟨entries, hver, htarget, habsent, hmove, rfl⟩ := stageInstallPackage_eq_ok.1 hs
    refine .inl ⟨entries, platform, d', ⟨hopens, hver, htarget, by simpa using habsent, hmove⟩, ?_,
      fun q hq hp => ?_, hx⟩
    · rw [hd' .package (by decide), placed, update_self]
    · rw [hd' q hq, placed, update_of_ne hp, update_of_ne hq,
        update_of_ne hq]

end SkillManager

/-! ## Update -/

/-- The package is staged and the installed one, `old`, reaches its backup. -/
structure UpdateAnswers.BacksUp (a : UpdateAnswers) (skillId : String) (archive : Archive)
    (entries : List (String × String)) (platform : Option String) (old : List (String × String))
    (d : Disk Place) : Prop where
  verifies : a.unpack.Verifies skillId archive entries platform
  target : a.target = .ok
  installed : d .package = some (.dir old)
  clock : ∃ timestamp, a.clock = .ok timestamp
  parent : a.parent = .ok
  vacant : Vacant (d .backup)
  backup : a.backup = .ok

namespace SkillManager
variable {m : SkillManager} {skillId : String} {archive : Archive}
  {a : UpdateAnswers} {entries old : List (String × String)} {platform : Option String}
  {target backup : String}

def vacated (d : Disk Place) (old entries : List (String × String)) : Disk Place :=
  update (update (update d .staged (some (.dir entries))) .package none)
    .backup (some (.dir old))

variable (d entries old target backup) in
theorem publishStagedSkillUpdate_vacated (publish unpublish : IoAnswer) :
    publishStagedSkillUpdate publish unpublish target backup (vacated d old entries) =
      match publish with
      | .ok => (.ok (), update (update (vacated d old entries) .staged none)
          .package (some (.dir entries)))
      | .fail e =>
        let message := "Failed to move updated skill into " ++ target ++ ": " ++ e
        match unpublish with
        | .ok => (.error message, update
            (update (vacated d old entries) .backup none) .package (some (.dir old)))
        | .fail r => (.error (message ++ "; rollback failed to restore " ++ target ++ " from " ++
            backup ++ ": " ++ r ++ ". skill disk state is uncertain"), vacated d old entries) := by
  have hstaged : vacated d old entries .staged = some (.dir entries) := by simp [vacated]
  have hpackage : vacated d old entries .package = none := by simp [vacated]
  have hbackup : vacated d old entries .backup = some (.dir old) := by simp [vacated]
  unfold publishStagedSkillUpdate
  rw [bind_of_ok (attempt_eq.2 rfl)]
  cases publish with
  | ok => simp [rename, hstaged, hpackage, Vacant, pure_apply]
  | fail e =>
    simp only [rename]
    rw [bind_of_ok (attempt_eq.2 rfl)]
    cases unpublish with
    | ok => simp [rename, hbackup, hpackage, Vacant, lift]
    | fail r => simp [rename, lift]

theorem stageUpdatePackage_of_backsUp
    (h : a.BacksUp skillId archive entries platform old d) :
    ∃ backup, m.stageUpdatePackage skillId a archive d =
      (do
        publishStagedSkillUpdate a.publish a.unpublish (m.targetDir skillId) backup
        return (platform, backup)) (vacated d old entries) := by
  obtain ⟨hver, htarget, hinstalled, ⟨timestamp, hclock⟩, hparent, hvacant, hbackup⟩ := h
  refine ⟨m.stampedDir "update_backup" skillId timestamp, ?_⟩
  have hprobe : ∀ path, skillPackageDirIsDirectory a.target .package path
      (update d .staged (some (.dir entries))) =
        (.ok true, update d .staged (some (.dir entries))) := fun path =>
    probe_eq_true.2 ⟨htarget, ⟨.dir old, by simpa using hinstalled, rfl⟩, rfl⟩
  have hmove : rename a.backup .package .backup (update d .staged (some (.dir entries))) =
      (.ok (), vacated d old entries) :=
    rename_eq_ok.2 ⟨hbackup, .dir old, by simpa using hinstalled, by simpa using hvacant, rfl⟩
  rw [stageUpdatePackage, bind_of_ok (extractVerified_eq_ok.2 ⟨entries, hver, rfl⟩),
    bind_of_ok (hprobe _)]
  simp only [Bool.not_true, Bool.false_eq_true, if_false]
  rw [bind_of_ok (lift_eq_ok.2 ⟨hclock, rfl⟩),
    bind_of_ok (mapErr_eq_ok.2 (createDirAll_eq_ok (u := ()).2 ⟨hparent, rfl⟩)),
    bind_of_ok (mapErr_eq_ok.2 hmove)]

theorem stageUpdatePackage_of_not_backsUp
    (hnot : ∀ entries platform old, ¬ a.BacksUp skillId archive entries platform old d) :
    ∃ e d', m.stageUpdatePackage skillId a archive d = (.error e, d') ∧
      ∀ q, q ≠ .staged → d' q = d q := by
  unfold stageUpdatePackage
  rcases hx : extractVerified skillId updateLabels a.unpack archive d with ⟨_ | platform, d₁⟩
  · exact ⟨_, d₁, bind_of_error hx, fun q hq => extractVerified_confined.apply hx hq⟩
  obtain ⟨entries, hver, rfl⟩ := extractVerified_eq_ok.1 hx
  rw [bind_of_ok hx]
  have hframe : ∀ q, q ≠ .staged → update d .staged (some (.dir entries)) q = d q :=
    fun q hq => update_of_ne hq ..
  rcases hp : skillPackageDirIsDirectory a.target .package (m.targetDir skillId)
    (update d .staged (some (.dir entries))) with ⟨_ | found, d₂⟩
  · exact ⟨_, d₂, bind_of_error hp, fun q hq => by rw [probe_error hp, hframe q hq]⟩
  rw [bind_of_ok hp]
  cases found with
  | false =>
    obtain ⟨-, -, rfl⟩ := probe_eq_false.1 hp
    exact ⟨_, _, bind_of_error (lift_eq_error.2 ⟨rfl, rfl⟩), hframe⟩
  | true =>
    obtain ⟨htarget, ⟨node, hnode, hdir⟩, rfl⟩ := probe_eq_true.1 hp
    obtain ⟨old, rfl⟩ := isDir_iff.1 hdir
    have hinstalled : d .package = some (.dir old) := by simpa using hnode
    simp only [Bool.not_true, Bool.false_eq_true, if_false]
    cases hclock : a.clock with
    | error e => exact ⟨_, _, bind_of_error (lift_eq_error.2 ⟨rfl, rfl⟩), hframe⟩
    | ok timestamp =>
      rw [bind_of_ok (lift_eq_ok.2 ⟨rfl, rfl⟩)]
      cases hparent : a.parent with
      | fail e =>
        exact ⟨_, _, bind_of_error (mapErr_eq_error.2
          ⟨e, createDirAll_eq_error.2 ⟨rfl, rfl⟩, rfl⟩), hframe⟩
      | ok =>
        rw [bind_of_ok (mapErr_eq_ok.2 (createDirAll_eq_ok (u := ()).2 ⟨rfl, rfl⟩))]
        rcases hmove : rename a.backup .package .backup
          (update d .staged (some (.dir entries))) with ⟨e | u, d₃⟩
        · rw [rename_error hmove] at hmove
          exact ⟨_, _, bind_of_error (mapErr_eq_error.2 ⟨e, hmove, rfl⟩), hframe⟩
        · obtain ⟨hbackup, -, -, hvacant, -⟩ := rename_eq_ok.1 hmove
          exact absurd ⟨hver, htarget, hinstalled, ⟨timestamp, hclock⟩, hparent,
            by simpa using hvacant, hbackup⟩ (hnot entries platform old)

theorem backsUp_update_staged (node : Option DiskNode) :
    a.BacksUp skillId archive entries platform old (update d .staged node) ↔
      a.BacksUp skillId archive entries platform old d := by
  constructor
  · intro h
    exact ⟨h.verifies, h.target, by simpa using h.installed, h.clock, h.parent,
      by simpa using h.vacant, h.backup⟩
  · intro h
    exact ⟨h.verifies, h.target, by simpa using h.installed, h.clock, h.parent,
      by simpa using h.vacant, h.backup⟩

variable (d m skillId archive a) in
/-- The new package is published, and only the clock can still fail; or neither package is in its
place; or nothing but the staging root and the backup changed. -/
theorem stageSkillUpdateFromArchive_cases (previous : InstalledSkillRecord) :
    (∃ entries platform old backup d', a.unpack.Opens d ∧
      a.BacksUp skillId archive entries platform old d ∧ a.publish = .ok ∧
      d' .package = some (.dir entries) ∧ d' .backup = some (.dir old) ∧
      (∀ q, q ≠ .staged → q ≠ .package → q ≠ .backup → d' q = d q) ∧
      m.stageSkillUpdateFromArchive skillId a archive previous d =
        match a.stamp with
        | .ok stamp =>
          let record := stagedRecord skillId archive stamp platform
          let message := "skill '" ++ skillId ++ "' was updated from version " ++
            previous.version ++ " to " ++ archive.version
          (.ok (.update ⟨appliedResult "updated" message skillId archive record, backup, record,
            previous⟩), d')
        | .error e => (.error e, d')) ∨
    (∃ entries platform old e d', a.unpack.Opens d ∧
      a.BacksUp skillId archive entries platform old d ∧ a.publish ≠ .ok ∧ a.unpublish ≠ .ok ∧
      m.stageSkillUpdateFromArchive skillId a archive previous d = (.error e, d') ∧
      d' .package = none) ∨
    (∃ e d', m.stageSkillUpdateFromArchive skillId a archive previous d = (.error e, d') ∧
      (∀ q, q ≠ .staged → q ≠ .backup → d' q = d q) ∧
      ∀ entries platform old, a.unpack.Opens d →
        a.BacksUp skillId archive entries platform old d →
          a.publish ≠ .ok ∧ a.unpublish = .ok) := by
  have hcases := guarded_cases (d := d)
    (x := m.stageSkillUpdateFromArchive skillId a archive previous) rfl
  by_cases hback : ∃ entries platform old, a.BacksUp skillId archive entries platform old d
  · obtain ⟨entries, platform, old, hback⟩ := hback
    obtain ⟨backup, heval⟩ := stageUpdatePackage_of_backsUp (m := m)
      ((backsUp_update_staged none).2 hback)
    rw [heval] at hcases
    have hpublish := publishStagedSkillUpdate_vacated (update d .staged none) entries old
      (m.targetDir skillId) backup a.publish a.unpublish
    rcases hcases with ⟨hopens, e, d', hx, hd'⟩ | ⟨hopens, e, d₁, d', hs, hx, hd'⟩ |
      ⟨hopens, t, d₁, d', hs, hd', hx⟩
    · exact .inr (.inr ⟨e, d', hx, fun q hq _ => hd' q hq, fun _ _ _ ho => absurd ho hopens⟩)
    · cases hp : a.publish with
      | ok =>
        simp only [hp] at hpublish hs
        rw [bind_of_ok hpublish] at hs
        cases hs
      | fail e₁ =>
        cases hu : a.unpublish with
        | ok =>
          simp only [hp, hu] at hpublish hs
          rw [bind_of_error hpublish] at hs
          cases hs
          refine .inr (.inr ⟨_, d', hx, fun q hq hb => ?_, fun _ _ _ _ _ => ⟨nofun, rfl⟩⟩)
          rw [hd' q hq]
          by_cases hpk : q = .package
          · rw [hpk, update_self, hback.installed]
          · simp [vacated, hpk, hb, hq]
        | fail e₂ =>
          simp only [hp, hu] at hpublish hs
          rw [bind_of_error hpublish] at hs
          cases hs
          refine .inr (.inl ⟨entries, platform, old, _, d', hopens, hback, nofun, nofun, hx, ?_⟩)
          rw [hd' .package (by decide)]
          simp [vacated]
    · cases hp : a.publish with
      | fail e₁ =>
        cases hu : a.unpublish <;>
        · simp only [hp, hu] at hpublish hs
          rw [bind_of_error hpublish] at hs
          cases hs
      | ok =>
        simp only [hp] at hpublish hs
        rw [bind_of_ok hpublish] at hs
        cases hs
        refine .inl ⟨entries, platform, old, backup, d', hopens, hback, rfl, ?_, ?_,
          fun q hq hpk hb => ?_, hx⟩
        · rw [hd' .package (by decide), update_self]
        · rw [hd' .backup (by decide)]
          simp [vacated]
        · rw [hd' q hq]
          simp [vacated, hq, hpk, hb]
  · simp only [not_exists] at hback
    obtain ⟨e₀, d₀, hstage, hframe⟩ := stageUpdatePackage_of_not_backsUp (m := m)
      (d := update d .staged none) fun _ _ _ h =>
        hback _ _ _ ((backsUp_update_staged none).1 h)
    rw [hstage] at hcases
    rcases hcases with ⟨hopens, e, d', hx, hd'⟩ | ⟨hopens, e, d₁, d', hs, hx, hd'⟩ |
      ⟨hopens, t, d₁, d', hs, hd', hx⟩
    · exact .inr (.inr ⟨e, d', hx, fun q hq _ => hd' q hq, fun _ _ _ ho => absurd ho hopens⟩)
    · cases hs
      refine .inr (.inr ⟨_, d', hx, fun q hq _ => ?_,
        fun entries platform old _ h => absurd h (hback entries platform old)⟩)
      rw [hd' q hq, hframe q hq, update_of_ne hq]
    · cases hs

end SkillManager

end LuaSkills.Lifecycle
