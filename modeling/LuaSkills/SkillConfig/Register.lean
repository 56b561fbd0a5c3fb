import LuaSkills.SkillConfig.Moves

/-!
# The file as a compare-and-swap register

`versions` is the sequence of documents the file has held, newest first. Every replacement builds on
the newest one and raises its revision by one (`Legal`), so a revision names one document for the whole
run. `RegisterInv` ties the file, the companion lock and the caches to that sequence.
-/

namespace LuaSkills.SkillConfig

open Function List

/-! ## Versions -/

/-- The document of the file after the logged replacements. -/
def current (d₀ : SkillConfigDocument) : List Event → SkillConfigDocument
  | [] => d₀
  | .replaced _ _ _ result :: _ => result
  | _ :: log => current d₀ log

/-- The documents the file has held, newest first. -/
def versions (d₀ : SkillConfigDocument) : List Event → List SkillConfigDocument
  | [] => [d₀]
  | .replaced _ _ _ result :: log => result :: versions d₀ log
  | _ :: log => versions d₀ log

/-- The write turned `base` into `result`: the whole of `base` with the requested change, one
revision later, at the revision the call expected. -/
structure WroteOver (write : WriteCall) (base result : SkillConfigDocument) : Prop where
  applied : ∃ document keys, write.request.apply base = .ok (document, keys) ∧ keys ≠ [] ∧
    result = { document with revision := result.revision }
  revision : result.revision.toNat = base.revision.toNat + 1
  expected : ∀ e, write.expected = some e → e = base.revision

/-- Each replacement was made over the document the earlier ones had left. -/
def Legal (d₀ : SkillConfigDocument) : List Event → Prop
  | [] => True
  | .replaced write _ base result :: log =>
    (base = current d₀ log ∧ WroteOver write base result) ∧ Legal d₀ log
  | _ :: log => Legal d₀ log

section
variable {d₀ : SkillConfigDocument} {log : List Event}

theorem current_mem_versions : current d₀ log ∈ versions d₀ log := by
  induction log with
  | nil => exact mem_singleton_self d₀
  | cons e log ih =>
    cases e with
    | replaced => exact mem_cons_self
    | _ => exact ih

theorem Legal.tail {e : Event} (h : Legal d₀ (e :: log)) : Legal d₀ log := by
  cases e with
  | replaced => exact h.2
  | _ => exact h

/-- The newest version has the highest revision; the others are below it. -/
theorem Legal.revision_le (h : Legal d₀ log) : ∀ d ∈ versions d₀ log,
    d = current d₀ log ∨ d.revision.toNat < (current d₀ log).revision.toNat := by
  induction log with
  | nil =>
    intro d hd
    exact Or.inl (mem_singleton.1 hd)
  | cons e log ih =>
    cases e with
    | replaced write i base result =>
      obtain ⟨⟨rfl, hwrote⟩, hlog⟩ := h
      intro d hd
      rcases mem_cons.1 hd with rfl | hd
      · exact Or.inl rfl
      · right
        have hrevision := hwrote.revision
        simp only [current]
        rcases ih hlog d hd with rfl | hlt <;> omega
    | _ => exact ih h

theorem Legal.version_eq (h : Legal d₀ log) (hd : d ∈ versions d₀ log) (hd' : d' ∈ versions d₀ log)
    (heq : d.revision = d'.revision) : d = d' := by
  induction log with
  | nil => rw [mem_singleton.1 hd, mem_singleton.1 hd']
  | cons e log ih =>
    cases e with
    | replaced write i base result =>
      have hle := h.revision_le
      simp only [current] at hle
      rcases hle d hd with rfl | hlt
      · rcases hle d' hd' with rfl | hlt'
        · rfl
        · rw [heq] at hlt'
          omega
      · rcases hle d' hd' with rfl | hlt'
        · rw [heq] at hlt
          omega
        · refine ih h.2 ((mem_cons.1 hd).resolve_left ?_)
            ((mem_cons.1 hd').resolve_left ?_)
          · rintro rfl
            omega
          · rintro rfl
            omega
    | _ => exact ih h hd hd'

theorem versions_append (newer : List Event) : versions d₀ log ⊆ versions d₀ (newer ++ log) := by
  induction newer with
  | nil => exact fun d hd => hd
  | cons e newer ih =>
    cases e with
    | replaced => exact fun d hd => mem_cons_of_mem _ (ih hd)
    | _ => exact ih

theorem Legal.append {newer : List Event} (h : Legal d₀ (newer ++ log)) : Legal d₀ log := by
  induction newer with
  | nil => exact h
  | cons e newer ih => exact ih h.tail

end

/-! ## The invariant -/

section
variable (linked : Linked) (path : String) (d₀ : SkillConfigDocument)

/-- What a store may be doing, given what it has cached. -/
def PhaseOk (w : World) (i : StoreId) (cached : SkillConfigSnapshot) : Phase → Prop
  | .idle | .refreshing => True
  | .waiting write => write.request.Submits
  | .locked write => w.lock = some i ∧ write.request.Submits
  | .loaded write disk => w.lock = some i ∧ write.request.Submits ∧
    readSnapshotFrom linked path w.disk = .ok disk ∧
    cached.document.revision ≤ disk.document.revision ∧
    ∀ e, write.expected = some e → e = disk.document.revision
  | .committed _ snapshot _ => w.lock = some i ∧ snapshot.document = current d₀ w.log ∧
    cached.document.revision ≤ snapshot.document.revision
  | .installed _ _ => w.lock = some i
  | .candidate snapshot => snapshot.document ∈ versions d₀ w.log

structure StoreOk (w : World) (i : StoreId) (store : Store) : Prop where
  cached : store.snapshot.document ∈ versions d₀ w.log
  phase : PhaseOk linked path d₀ w i store.snapshot store.phase

structure RegisterInv (w : World) : Prop where
  disk : ∃ s, readSnapshotFrom linked path w.disk = .ok s ∧ s.document = current d₀ w.log
  legal : Legal d₀ w.log
  stores : ∀ i store, w.stores i = some store → StoreOk linked path d₀ w i store

end

section
variable {linked : Linked} {path : String} {d₀ : SkillConfigDocument} {w w' : World} {i : StoreId}
  {a : Act}

/-- A store keeps its part of the invariant while the versions grow, as long as nothing moves under
a lock it holds. -/
theorem StoreOk.frame (h : StoreOk linked path d₀ w i store)
    (hversions : versions d₀ w.log ⊆ versions d₀ w'.log) (hlock : w.lock = some i →
      w'.lock = some i ∧ w'.disk = w.disk ∧ current d₀ w'.log = current d₀ w.log) :
    StoreOk linked path d₀ w' i store := by
  obtain ⟨hcached, hphase⟩ := h
  refine ⟨hversions hcached, ?_⟩
  cases hp : store.phase with
  | idle | refreshing => trivial
  | waiting write =>
    rw [hp] at hphase
    exact hphase
  | locked write =>
    rw [hp] at hphase
    exact ⟨(hlock hphase.1).1, hphase.2⟩
  | loaded write disk =>
    rw [hp] at hphase
    obtain ⟨hheld, hsubmits, hread, hle, hexpected⟩ := hphase
    obtain ⟨hheld', hdisk, -⟩ := hlock hheld
    exact ⟨hheld', hsubmits, hdisk ▸ hread, hle, hexpected⟩
  | committed write snapshot outcome =>
    rw [hp] at hphase
    obtain ⟨hheld, hdocument, hle⟩ := hphase
    obtain ⟨hheld', -, hcurrent⟩ := hlock hheld
    exact ⟨hheld', hdocument.trans hcurrent.symm, hle⟩
  | installed write outcome =>
    rw [hp] at hphase
    exact (hlock hphase).1
  | candidate snapshot =>
    rw [hp] at hphase
    exact hversions hphase

/-- A step of store `i` that leaves the file and the locks of the others alone. -/
theorem RegisterInv.update (H : RegisterInv linked path d₀ w)
    (hstores : w'.stores = update w.stores i store') (hdisk : w'.disk = w.disk)
    (hcurrent : current d₀ w'.log = current d₀ w.log) (hversions : versions d₀ w'.log = versions d₀ w.log)
    (hlegal : Legal d₀ w'.log) (hlock : ∀ j, j ≠ i → w.lock = some j → w'.lock = some j)
    (hstore : ∀ store, store' = some store → StoreOk linked path d₀ w' i store) :
    RegisterInv linked path d₀ w' := by
  refine ⟨?_, hlegal, fun j store hj => ?_⟩
  · rw [hdisk, hcurrent]
    exact H.disk
  · rw [hstores, update_apply] at hj
    split at hj
    · next heq =>
      subst heq
      exact hstore store hj
    · next hne =>
      exact (H.stores j store hj).frame (hversions ▸ Subset.refl _)
        fun hheld => ⟨hlock j hne hheld, hdisk, hcurrent⟩

theorem unlock_of_ne (hne : j ≠ i) (h : w.lock = some j) : w.unlock i = some j := by
  rw [World.unlock, if_neg, h]
  rw [h]
  exact fun heq => hne (Option.some.inj heq)

/-- What a read of the file returns while the invariant holds. -/
theorem RegisterInv.read (H : RegisterInv linked path d₀ w)
    (h : readSnapshotFrom linked path w.disk = .ok s) : s.document = current d₀ w.log := by
  obtain ⟨s', hs', hcurrent⟩ := H.disk
  rw [h] at hs'
  cases hs'
  exact hcurrent

/-- Accepted files hold valid documents. -/
theorem valid_of_read (h : readSnapshotFrom linked path file = .ok s) :
    validateSkillConfigDocument s.document = .ok () := by
  cases file with
  | none =>
    cases h
    exact validateSkillConfigDocument_default
  | some bytes => exact (readSnapshotFrom_some.1 h).2.2.1

/-- The replacement of the file by store `i`, which holds the lock. -/
theorem RegisterInv.replace (H : RegisterInv linked path d₀ w) {cached disk : SkillConfigSnapshot}
    {write : WriteCall} {document : SkillConfigDocument} {keys : List String} {revision : UInt64}
    {io : WriteAnswers} {bytes : List UInt8}
    (hi : w.stores i = some ⟨cached, .loaded write disk⟩)
    (happly : write.request.apply disk.document = .ok (document, keys)) (hkeys : keys ≠ [])
    (hrevision : nextRevision document.revision = .ok revision)
    (hwrite : writeDocumentTo linked path io { document with revision } = .ok bytes)
    {outcome : WriteOutcome} :
    RegisterInv linked path d₀
      { w.setStore i ⟨cached, .committed write
          ⟨linked.hexSha256 bytes, { document with revision }⟩ outcome⟩ with
        disk := some bytes
        log := .replaced write i disk.document { document with revision } :: w.log } := by
  obtain ⟨hheld, -, hread, hle, hexpected⟩ := (H.stores i _ hi).phase
  have hbase : disk.document = current d₀ w.log := H.read hread
  have hnext : revision.toNat = disk.document.revision.toNat + 1 := by
    rw [nextRevision_eq_ok hrevision, apply_revision happly]
  have hgrow : versions d₀ w.log ⊆
      versions d₀ (.replaced write i disk.document { document with revision } :: w.log) :=
    versions_append [.replaced write i disk.document { document with revision }]
  refine ⟨⟨_, read_of_write hwrite, rfl⟩, ?_, fun j store hj => ?_⟩
  · exact ⟨⟨hbase, ⟨document, keys, happly, hkeys, rfl⟩, hnext, hexpected⟩, H.legal⟩
  · simp only [World.setStore, update_apply] at hj
    split at hj
    · next heq =>
      subst heq
      cases hj
      have hle' : cached.document.revision ≤ revision := by
        simp only [UInt64.le_iff_toNat_le] at hle ⊢
        omega
      exact ⟨hgrow (H.stores j _ hi).cached, hheld, rfl, hle'⟩
    · next hne =>
      refine (H.stores j store hj).frame hgrow fun hj' => ?_
      rw [hheld] at hj'
      exact absurd (Option.some.inj hj').symm hne

/-- Every step keeps the file, the lock and the caches in agreement. -/
theorem RegisterInv.move (H : RegisterInv linked path d₀ w) (h : Move linked path w a w') :
    RegisterInv linked path d₀ w' := by
  cases h with
  | @create i snapshot hnone hread =>
    refine H.update rfl rfl rfl rfl H.legal (fun j _ hj => hj) fun store hstore => ?_
    cases hstore
    exact ⟨H.read hread ▸ current_mem_versions, trivial⟩
  | @begin i cached request expectedRevision expected hi hprepare =>
    refine H.update rfl rfl rfl rfl H.legal (fun j _ hj => hj) fun store hstore => ?_
    cases hstore
    exact ⟨(H.stores i _ hi).cached, WriteRequest.submits_of_prepare hprepare⟩
  | @refuse i cached request expectedRevision message hi
  | @fail i cached phase write message a ha hi hphase =>
    refine H.update rfl rfl rfl rfl H.legal (fun j => unlock_of_ne) fun store hstore => ?_
    cases hstore
    exact ⟨(H.stores i _ hi).cached, trivial⟩
  | @acquire i cached write hi hfree =>
    refine H.update rfl rfl rfl rfl H.legal (fun j _ hj => ?_) fun store hstore => ?_
    · rw [hfree] at hj
      cases hj
    · cases hstore
      exact ⟨(H.stores i _ hi).cached, rfl, (H.stores i _ hi).phase⟩
  | @load i cached write disk failure hi hread hle hexpected =>
    refine H.update rfl rfl rfl rfl H.legal (fun j _ hj => hj) fun store hstore => ?_
    cases hstore
    obtain ⟨hheld, hsubmits⟩ := (H.stores i _ hi).phase
    exact ⟨(H.stores i _ hi).cached, hheld, hsubmits, hread, hle, hexpected⟩
  | @keep i cached write disk document io hi happly =>
    refine H.update rfl rfl rfl rfl H.legal (fun j _ hj => hj) fun store hstore => ?_
    cases hstore
    obtain ⟨hheld, hsubmits, hread, hle, -⟩ := (H.stores i _ hi).phase
    obtain rfl := apply_unchanged (valid_of_read hread) hsubmits happly
    exact ⟨(H.stores i _ hi).cached, hheld, H.read hread, hle⟩
  | replace hi happly hkeys hrevision hwrite => exact H.replace hi happly hkeys hrevision hwrite
  | @install i cached write snapshot outcome hi =>
    refine H.update rfl rfl rfl rfl H.legal (fun j _ hj => hj) fun store hstore => ?_
    cases hstore
    obtain ⟨hheld, hdocument, -⟩ := (H.stores i _ hi).phase
    exact ⟨hdocument ▸ current_mem_versions, hheld⟩
  | @finish i cached write outcome hi =>
    refine H.update rfl rfl rfl rfl H.legal (fun j => unlock_of_ne) fun store hstore => ?_
    cases hstore
    exact ⟨(H.stores i _ hi).cached, trivial⟩
  | @refresh i cached hi =>
    refine H.update rfl rfl rfl rfl H.legal (fun j _ hj => hj) fun store hstore => ?_
    cases hstore
    exact ⟨(H.stores i _ hi).cached, trivial⟩
  | @reload i cached snapshot failure hi hread =>
    refine H.update rfl rfl rfl rfl H.legal (fun j _ hj => hj) fun store hstore => ?_
    cases hstore
    have hcandidate : snapshot.document ∈ versions d₀ w.log := H.read hread ▸ current_mem_versions
    exact ⟨(H.stores i _ hi).cached, hcandidate⟩
  | @endRefresh i cached phase result a ha hi hphase =>
    refine H.update rfl rfl rfl rfl H.legal (fun j _ hj => hj) fun store hstore => ?_
    cases hstore
    exact ⟨(H.stores i _ hi).cached, trivial⟩
  | @replaceCache i cached snapshot hi hle =>
    refine H.update rfl rfl rfl rfl H.legal (fun j _ hj => hj) fun store hstore => ?_
    cases hstore
    exact ⟨(H.stores i _ hi).phase, trivial⟩
  | @drop i store hi =>
    exact H.update rfl rfl rfl rfl H.legal (fun j => unlock_of_ne) fun store hstore => nomatch hstore

end

end LuaSkills.SkillConfig
