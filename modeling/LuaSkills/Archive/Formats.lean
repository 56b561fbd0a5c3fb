import LuaSkills.Archive.Install

/-!
# Zip and tar archives of the same members

The zip reader looks every export up in the directory of the archive, an exact match before one behind
a leading directory. The tar reader copies every match it meets, so that the last one stays. Both
succeed for the same inputs; they leave the same bytes exactly when the last match of every export has
those of the member that the zip reader takes.
-/

namespace LuaSkills.Archive

open EStateM FileStore List
open FileProg (Quiet)
open Dependency (DependencyExportSpec DependencyArchiveType Path resolveDependencyExportTarget
  validateTargetComponents)

/-! ## Without faults -/

section
variable {ts fs : List Path} {target : Path} {exports : List ResolvedDependencyExport}
  {payload : Payload}

theorem quiet_createDirectory (hapart : Apart ts) (ht : target ∈ ts) (hne : target ≠ []) :
    Triple (Quiet (Room ts fs)) (createDirectory target.dropLast)
      (fun _ => Quiet fun s => Room ts fs s ∧
        ∀ q, q <+: target → q ≠ target → (s.tree.lookup q).any FileEntry.isDir)
      fun _ => False :=
  FileProg.quiet_createParent hapart ht hne

theorem quiet_extractMember (hapart : Apart ts) (ht : target ∈ ts) (hne : target ≠ []) :
    Triple (Quiet (Room ts fs)) (extractMember d target bytes)
      (fun _ => Quiet (Room ts (fs ++ [target]))) fun _ => False := by
  apply (quiet_createDirectory hapart ht hne).bind
  intro _
  apply (FileProg.quiet_create hapart ht).bind
  intro _
  exact FileProg.quiet_write

theorem quiet_copyFile (hapart : Apart ts) (ht : target ∈ ts) (hne : target ≠ []) (hsource : source ∈ fs) :
    Triple (Quiet (Room ts fs)) (copyFileWithParentDir source target)
      (fun _ => Quiet (Room ts (fs ++ [target]))) fun _ => False := by
  apply (quiet_createDirectory hapart ht hne).bind
  intro _
  exact FileProg.quiet_copy hapart ht hsource

theorem quiet_markExecutable (hapart : Apart ts) (ht : target ∈ ts) (hfile : target ∈ fs) :
    Triple (Quiet (Room ts fs)) (markExecutableIfNeeded target executable)
      (fun _ => Quiet (Room ts fs)) fun _ => False := by
  unfold markExecutableIfNeeded
  split
  · apply FileProg.quiet_probe.bind
    intro _
    exact FileProg.quiet_setExecutable hapart ht hfile
  · exact .pure fun _ hs => hs

theorem quiet_zip (hzip : payload.zip = .ok entries)
    (hall : ∀ export_ ∈ exports, (zipEntry entries export_.spec.archivePath).isSome)
    (hts : targets exports ⊆ ts) (hapart : Apart ts) (hne : ∀ t ∈ ts, t ≠ []) :
    Triple (Quiet (Room ts [])) (installFromZipArchive payload exports) (fun _ _ => True)
      fun _ => False := by
  apply FileProg.quiet_probe.bind
  intro _
  apply Triple.bind (Q := fun entries' w => entries' = entries ∧ Quiet (Room ts []) w)
  · refine FileProg.triple_check (fun w a hw h => ?_) fun w e hw h => ?_
    · exact ⟨Except.ok.inj (h.symm.trans hzip), hw⟩
    · cases hzip.symm.trans h
  intro entries'
  apply Triple.of_and
  rintro rfl
  refine (Triple.forM (E := fun _ => False) (I := fun done => Quiet (Room ts (targets done))) exports
    ?_).mono (fun _ hs => hs) (fun _ _ _ => trivial) fun _ hs => hs
  intro done export_ rest heq
  have hmem : export_ ∈ exports := heq ▸ mem_append_right _ mem_cons_self
  have ht : export_.targetPath ∈ ts := hts (mem_map_of_mem hmem)
  obtain ⟨entry, hentry⟩ := Option.isSome_iff_exists.1 (hall export_ hmem)
  unfold installZipExport
  simp only [hentry]
  apply (quiet_extractMember hapart ht (hne _ ht)).bind
  intro _
  have hmark := @quiet_markExecutable ts (targets done ++ [export_.targetPath]) export_.targetPath
    export_.spec.executable hapart ht (mem_append_right _ mem_cons_self)
  simpa [targets] using hmark

theorem quiet_unpackMember {member : Member} {matching : List ResolvedDependencyExport}
    (hts : targets matching ⊆ ts) (hapart : Apart ts) (hne : ∀ t ∈ ts, t ≠ []) :
    Triple (Quiet (Room ts fs)) (unpackMember member matching)
      (fun _ => Quiet (Room ts (fs ++ targets matching))) fun _ => False := by
  match matching with
  | [] => exact .pure fun _ hs => by simpa [targets] using hs
  | first :: remaining =>
    have hfirst := hts mem_cons_self
    apply (quiet_extractMember hapart hfirst (hne _ hfirst)).bind
    intro _
    have hloop := Triple.forM
      (f := fun export_ : ResolvedDependencyExport =>
        if export_.targetPath ≠ first.targetPath then
          copyFileWithParentDir first.targetPath export_.targetPath
        else Pure.pure ())
      (E := fun _ => False)
      (I := fun done => Quiet (Room ts (fs ++ targets (first :: done)))) remaining ?_
    · exact hloop
    intro done export_ rest heq
    have ht : export_.targetPath ∈ ts := hts (mem_map_of_mem
      (mem_cons_of_mem _ (heq ▸ mem_append_right _ mem_cons_self)))
    have happend : fs ++ targets (first :: (done ++ [export_])) =
        (fs ++ targets (first :: done)) ++ [export_.targetPath] := by simp [targets]
    have hsource : first.targetPath ∈ fs ++ targets (first :: done) :=
      mem_append_right _ mem_cons_self
    rw [happend]
    split
    · exact quiet_copyFile hapart ht (hne _ ht) hsource
    next hsame =>
      rw [ne_eq, not_not] at hsame
      refine .pure fun w hw => ⟨hw.1, hw.2.parents, hw.2.leaf, fun p hp => ?_⟩
      rcases mem_append.1 hp with hp | hp
      · exact hw.2.files p hp
      · rw [mem_singleton.1 hp, hsame]
        exact hw.2.files _ hsource

theorem quiet_unpackEntries (hts : targets exports ⊆ ts) (hapart : Apart ts) (hne : ∀ t ∈ ts, t ≠ [])
    (members done : List Member) :
    Triple (Quiet (Room ts ((passOf exports done).extractedEntries.map (·.1))))
      (unpackEntries exports (members.map .ok) (passOf exports done))
      (fun pass w => pass = passOf exports (done ++ members) ∧
        Quiet (Room ts (pass.extractedEntries.map (·.1))) w)
      fun _ => False := by
  induction members generalizing done with
  | nil => exact .pure fun w hw => ⟨by rw [append_nil], hw⟩
  | cons member members ih =>
    rw [map_cons, unpackEntries, ← passOf_concat]
    apply Triple.bind
      (Q := fun _ => Quiet (Room ts ((passOf exports (done ++ [member])).extractedEntries.map (·.1))))
    · rw [passOf_concat, map_append]
      have hunpack := @quiet_unpackMember ts ((passOf exports done).extractedEntries.map (·.1)) member
        (matchingExports exports member)
        (Subset.trans (targets_matchingExports member) hts) hapart hne
      simpa [targets, Function.comp_def] using hunpack
    · intro _
      have hrest := ih (done ++ [member])
      rwa [append_assoc] at hrest

theorem quiet_tarGz {members : List Member} (htar : payload.tar = members.map .ok)
    (hall : ∀ export_ ∈ exports, ∃ m ∈ members, m.matchesExport export_.spec.archivePath = true)
    (hts : targets exports ⊆ ts) (hapart : Apart ts) (hne : ∀ t ∈ ts, t ≠ []) :
    Triple (Quiet (Room ts [])) (installFromTarGzArchive payload exports) (fun _ _ => True)
      fun _ => False := by
  apply FileProg.quiet_probe.bind
  intro _
  rw [htar]
  apply (quiet_unpackEntries hts hapart hne members []).bind
  intro pass
  apply Triple.of_and
  rintro rfl
  rw [nil_append]
  apply Triple.bind (Q := fun _ => Quiet (Room ts ((passOf exports members).extractedEntries.map (·.1))))
  · refine Triple.forM (E := fun _ => False)
      (I := fun _ => Quiet (Room ts ((passOf exports members).extractedEntries.map (·.1))))
      (exports.zip (passOf exports members).matchedExports) fun done entry rest heq => ?_
    have hentry : entry ∈ exports.zip (exports.map fun export_ =>
        members.any fun member => member.matchesExport export_.spec.archivePath) := by
      change entry ∈ exports.zip (passOf exports members).matchedExports
      rw [← heq]
      exact mem_append_right _ mem_cons_self
    rw [← map_prod_left_eq_zip] at hentry
    obtain ⟨export_, hmem, rfl⟩ := mem_map.1 hentry
    have hmatched : (members.any fun member => member.matchesExport export_.spec.archivePath) = true :=
      any_eq_true.2 (hall export_ hmem)
    rw [hmatched, if_neg (fun h => Bool.noConfusion h)]
    exact .pure fun _ hs => hs
  · intro _
    refine (Triple.forM (E := fun _ => False)
      (I := fun _ => Quiet (Room ts ((passOf exports members).extractedEntries.map (·.1))))
      (passOf exports members).extractedEntries fun done entry rest heq => ?_).mono (fun _ hs => hs)
        (fun _ _ _ => trivial) fun _ hs => hs
    have hentry : entry ∈ (passOf exports members).extractedEntries :=
      heq ▸ mem_append_right _ mem_cons_self
    apply quiet_markExecutable hapart _ (mem_map_of_mem hentry)
    obtain ⟨member, -, hmem⟩ := mem_flatMap.1 hentry
    obtain ⟨export_, hexport, rfl⟩ := mem_map.1 hmem
    exact hts (mem_map_of_mem (mem_filter.1 hexport).1)

end

/-! ## When an installation succeeds -/

/-- The members packed as a zip archive; `directory` is what the zip library lists of them. -/
def zipPayload (directory : List Member → List Member) (members : List Member) : Payload where
  bytes := []
  executable := false
  zip := .ok (directory members)
  tar := []

def tarPayload (members : List Member) : Payload where
  bytes := []
  executable := false
  zip := .error "invalid Zip archive"
  tar := members.map .ok

/-- The store after an installation that succeeds on a file system without faults. -/
def installed (payload : Payload) (archiveType : DependencyArchiveType) (root : Path)
    (exports : List DependencyExportSpec) (s : FileStore) : Option FileStore :=
  match installDownloadedPayload payload archiveType root exports ⟨s, []⟩ with
  | .ok _ w => some w.store
  | .error _ _ => none

/-- What the targets, the disk and the members have to be like for an installation. -/
structure Installable (s : FileStore) (root : Path) (exports : List DependencyExportSpec)
    (members : List Member) : Prop where
  admitted : ∃ resolved, Admitted s root exports resolved ∧ Apart (targets resolved)
  root : (s.createDirAll root).isSome
  matched : ∀ spec ∈ exports, ∃ m ∈ members, m.matchesExport spec.archivePath = true

/-- The zip library lists members of the archive, and one for each name. -/
structure ZipDirectory (directory : List Member → List Member) : Prop where
  mem : ∀ {members m}, m ∈ directory members → m ∈ members
  name : ∀ {members m}, m ∈ members → ∃ m' ∈ directory members, m'.name = m.name

section
variable {s s₁ : FileStore} {root : Path} {exports : List DependencyExportSpec}
  {resolved : List ResolvedDependencyExport} {payload : Payload} {members : List Member}
  {directory : List Member → List Member} {archiveType : DependencyArchiveType}

theorem validateComponents_ok (h : validateTargetComponents s.tree current names = .ok ()) :
    (∀ n, n <+: names → n ≠ names → n ≠ [] → s.tree.lookup (current ++ n) = none ∨
        s.tree.lookup (current ++ n) = some .dir) ∧
      (names ≠ [] → s.tree.lookup (current ++ names) = none ∨ s.IsFile (current ++ names)) := by
  induction names generalizing current with
  | nil => exact ⟨fun n hn hne => absurd (prefix_nil.1 hn) hne, fun h => absurd rfl h⟩
  | cons name rest ih =>
    have hrest : (validateTargetComponents s.tree (current ++ [name]) rest = .ok () ∧
          (s.tree.lookup (current ++ [name]) = none ∨
            s.tree.lookup (current ++ [name]) = some .dir ∧ rest ≠ [])) ∨
        (rest = [] ∧ (s.tree.lookup (current ++ [name]) = none ∨ s.IsFile (current ++ [name]))) := by
      rw [validateTargetComponents] at h
      cases hlookup : s.tree.lookup (current ++ [name]) with
      | none =>
        rw [hlookup] at h
        exact .inl ⟨h, .inl rfl⟩
      | some entry =>
        rw [hlookup] at h
        cases entry with
        | link directory => cases h
        | file mode =>
          by_cases hrest : rest = []
          · exact .inr ⟨hrest, .inr ⟨mode, hlookup⟩⟩
          · simp [hrest] at h
        | dir =>
          by_cases hrest : rest = []
          · simp [hrest] at h
          · simp only [hrest, if_false] at h
            exact .inl ⟨h, .inr ⟨rfl, hrest⟩⟩
    rcases hrest with ⟨hrest, hname⟩ | ⟨rfl, hleaf⟩
    · obtain ⟨hparents, hleaf⟩ := ih hrest
      constructor
      · intro n hn hne hempty
        rcases prefix_cons_iff.1 hn with rfl | ⟨n', rfl, hn'⟩
        · exact absurd rfl hempty
        · rcases eq_or_ne n' [] with rfl | hn'ne
          · exact hname.imp_right (·.1)
          · have := hparents n' hn' (fun h => hne (by rw [h])) hn'ne
            simpa using this
      · intro _
        rcases eq_or_ne rest [] with rfl | hne
        · exact .inl (hname.resolve_right fun h => h.2 rfl)
        · simpa using hleaf hne
    · constructor
      · intro n hn hne hempty
        rcases prefix_cons_iff.1 hn with rfl | ⟨n', rfl, hn'⟩
        · exact absurd rfl hempty
        · exact absurd (by rw [prefix_nil.1 hn']) hne
      · exact fun _ => hleaf

theorem Admitted.room (H : Admitted s root exports resolved) (h : s.createDirAll root = some s₁) :
    Room (targets resolved) [] s₁ := by
  obtain ⟨tree, htree, rfl⟩ := Option.map_eq_some_iff.1 h
  have hkept : ∀ q, ¬ q <+: root → tree.lookup q = s.tree.lookup q := fun q hq =>
    (FileTree.lookup_createDirAll htree).resolve_right fun h => hq h.2.2
  have hlonger : ∀ {names : List String}, names ≠ [] → ¬ root ++ names <+: root := by
    intro names hne hprefix
    have hle := hprefix.length_le
    have hpos := length_pos_iff.2 hne
    rw [length_append] at hle
    omega
  constructor
  case parents =>
    intro t ht q hq hqt
    obtain ⟨export_, hmem, rfl⟩ := mem_map.1 ht
    obtain ⟨names, hne, htarget, -⟩ := Dependency.resolveTarget_eq_ok (resolveTargets_mem H.resolves hmem).2
    have hvalid := H.validates export_ hmem
    rw [htarget, drop_left] at hvalid
    rw [htarget] at hq hqt
    rcases prefix_or_prefix_of_prefix hq (prefix_append root names) with hroot | ⟨n, rfl⟩
    · exact .inr (FileTree.isDir_createDirAll htree hroot)
    · have hn : n <+: names := (prefix_append_right_inj root).1 hq
      rcases eq_or_ne n [] with rfl | hnne
      · rw [append_nil]
        exact .inr (FileTree.isDir_createDirAll htree (prefix_refl root))
      · have hparent := (validateComponents_ok hvalid).1 n hn (fun h => hqt (by rw [h])) hnne
        rw [hkept _ (hlonger hnne)]
        exact hparent.imp_right fun h => by rw [h]; rfl
  case leaf =>
    intro t ht
    obtain ⟨export_, hmem, rfl⟩ := mem_map.1 ht
    obtain ⟨names, hne, htarget, -⟩ := Dependency.resolveTarget_eq_ok (resolveTargets_mem H.resolves hmem).2
    have hvalid := H.validates export_ hmem
    rw [htarget, drop_left] at hvalid
    have hlookup := hkept _ (hlonger hne)
    rcases (validateComponents_ok hvalid).2 hne with hnone | ⟨mode, hfile⟩
    · exact .inl (by rw [htarget, hlookup, hnone])
    · exact .inr ⟨mode, by rw [htarget, hlookup, hfile]⟩
  case files => exact fun p hp => nomatch hp

/-- An admitted installation whose format does not stop succeeds. -/
theorem quiet_install (H : Admitted s root exports resolved) (h : s.createDirAll root = some s₁)
    (hformat : Triple (Quiet (Room (targets resolved) []))
      (match archiveType with
        | .raw => installFromRawFile payload resolved
        | .zip => installFromZipArchive payload resolved
        | .tarGz => installFromTarGzArchive payload resolved) (fun _ _ => True) fun _ => False) :
    (installed payload archiveType root exports s).isSome := by
  have htriple : Triple (Quiet (· = s)) (installDownloadedPayload payload archiveType root exports)
      (fun _ _ => True) fun _ => False := by
    apply Triple.bind (Q := fun a w => a = resolved ∧ Quiet (· = s) w)
    · refine FileProg.triple_check (fun w a hw ha => ?_) fun w e hw he => ?_
      · exact ⟨Except.ok.inj (ha.symm.trans H.resolves), hw⟩
      · cases H.resolves.symm.trans he
    intro a
    apply Triple.of_and
    rintro rfl
    apply Triple.bind (Q := fun _ => Quiet (· = s))
    · refine Triple.forM (E := fun _ => False) (I := fun _ => Quiet (· = s)) a fun done export_ rest heq => ?_
      apply FileProg.quiet_probe.bind
      intro _
      have hvalid := H.validates export_ (heq ▸ mem_append_right _ mem_cons_self)
      refine FileProg.triple_check (fun w _ hw _ => hw) fun w e hw he => ?_
      rw [hw.2, hvalid] at he
      cases he
    intro _
    apply Triple.bind (Q := fun _ => Quiet (· = s₁))
    · exact FileProg.quiet_createDirAll h
    intro _
    exact hformat.mono (fun w hw => ⟨hw.1, hw.2 ▸ H.room h⟩) (fun _ _ hs => hs) fun _ hs => hs
  have hrun := htriple ⟨s, []⟩ ⟨rfl, rfl⟩
  unfold installed
  cases hresult : installDownloadedPayload payload archiveType root exports ⟨s, []⟩ with
  | ok _ w => rfl
  | error e w =>
    rw [hresult] at hrun
    exact hrun.elim

theorem installed_eq_some {after : FileStore}
    (h : installed payload archiveType root exports s = some after) :
    ∃ resolved s₁ ws, Admitted s root exports resolved ∧ s.createDirAll root = some s₁ ∧
      Unpacked payload resolved archiveType ws ∧ s₁.Wrote ws after := by
  unfold installed at h
  cases hresult : installDownloadedPayload payload archiveType root exports ⟨s, []⟩ with
  | ok u w =>
    rw [hresult] at h
    cases h
    exact triple_install.ok rfl hresult
  | error e w =>
    rw [hresult] at h
    cases h

/-- After an installation the targets hold files, which lie apart. -/
theorem apart_of_installed {after : FileStore} {ws : List (Path × List UInt8)}
    (hunpacked : Unpacked payload resolved archiveType ws) (hwrote : s₁.Wrote ws after) :
    Apart (targets resolved) :=
  apart_of_isFile fun t ht => (hwrote.isFile t).2 (.inr (hunpacked.fst_mem.2 ht))

theorem Installable.nonempty (h : resolveDependencyExportTargets root exports = .ok resolved) :
    ∀ t ∈ targets resolved, t ≠ [] := by
  rintro t ht rfl
  obtain ⟨hbelow, hne⟩ := targets_below h [] ht
  exact hne (prefix_nil.1 hbelow).symm

theorem exists_matching_directory (hdirectory : ZipDirectory directory) :
    (∃ m ∈ directory members, m.matchesExport declared = true) ↔
      ∃ m ∈ members, m.matchesExport declared = true := by
  constructor
  · intro ⟨m, hm, hmatch⟩
    exact ⟨m, hdirectory.mem hm, hmatch⟩
  · intro ⟨m, hm, hmatch⟩
    obtain ⟨m', hm', hname⟩ := hdirectory.name hm
    have hsame : m'.matchesExport declared = m.matchesExport declared := by
      unfold Member.matchesExport
      rw [hname]
    exact ⟨m', hm', hsame.trans hmatch⟩

theorem zip_installed_isSome (hdirectory : ZipDirectory directory) :
    (installed (zipPayload directory members) .zip root exports s).isSome ↔
      Installable s root exports members := by
  constructor
  · intro h
    obtain ⟨after, hafter⟩ := Option.isSome_iff_exists.1 h
    obtain ⟨resolved, s₁, ws, hadmitted, hroot, hunpacked, hwrote⟩ := installed_eq_some hafter
    refine ⟨⟨resolved, hadmitted, apart_of_installed hunpacked hwrote⟩, by rw [hroot]; rfl, ?_⟩
    intro spec hspec
    obtain ⟨export_, hmem, rfl⟩ := resolveTargets_exists hadmitted.resolves hspec
    cases hunpacked with
    | zip hzip hall =>
      cases hzip
      exact (exists_matching_directory hdirectory).1 (zipEntry_isSome.1 (hall export_ hmem))
  · intro ⟨⟨resolved, hadmitted, hapart⟩, hroot, hmatched⟩
    obtain ⟨s₁, hroot⟩ := Option.isSome_iff_exists.1 hroot
    have hall : ∀ export_ ∈ resolved,
        (zipEntry (directory members) export_.spec.archivePath).isSome := fun export_ hmem =>
      zipEntry_isSome.2 ((exists_matching_directory hdirectory).2
        (hmatched _ (resolveTargets_mem hadmitted.resolves hmem).1))
    have hzip : (zipPayload directory members).zip = .ok (directory members) := rfl
    exact quiet_install hadmitted hroot (quiet_zip hzip hall (Subset.refl _) hapart
      (Installable.nonempty hadmitted.resolves))

theorem tar_installed_isSome :
    (installed (tarPayload members) .tarGz root exports s).isSome ↔
      Installable s root exports members := by
  constructor
  · intro h
    obtain ⟨after, hafter⟩ := Option.isSome_iff_exists.1 h
    obtain ⟨resolved, s₁, ws, hadmitted, hroot, hunpacked, hwrote⟩ := installed_eq_some hafter
    refine ⟨⟨resolved, hadmitted, apart_of_installed hunpacked hwrote⟩, by rw [hroot]; rfl, ?_⟩
    intro spec hspec
    obtain ⟨export_, hmem, rfl⟩ := resolveTargets_exists hadmitted.resolves hspec
    cases hunpacked with
    | tarGz htar hall =>
      cases map_injective_iff.2 (fun _ _ h => Except.ok.inj h) htar
      exact hall export_ hmem
  · intro ⟨⟨resolved, hadmitted, hapart⟩, hroot, hmatched⟩
    obtain ⟨s₁, hroot⟩ := Option.isSome_iff_exists.1 hroot
    have hall : ∀ export_ ∈ resolved, ∃ m ∈ members,
        m.matchesExport export_.spec.archivePath = true := fun export_ hmem =>
      hmatched _ (resolveTargets_mem hadmitted.resolves hmem).1
    have htar : (tarPayload members).tar = members.map .ok := rfl
    exact quiet_install hadmitted hroot (quiet_tarGz htar hall (Subset.refl _) hapart
      (Installable.nonempty hadmitted.resolves))

/-! ## What the targets hold -/

/-- The last member that a pass over a tar archive copies for a declared path. -/
def lastMatch (members : List Member) (declared : String) : Option Member :=
  members.reverse.find? fun member => member.matchesExport declared

theorem zip_contents {entries : List Member} {after : FileStore} {export_ : ResolvedDependencyExport}
    (hwrote : s₁.Wrote (zipWrites entries resolved) after) (hdistinct : (targets resolved).Nodup)
    (hmem : export_ ∈ resolved) {entry : Member}
    (hentry : zipEntry entries export_.spec.archivePath = some entry) :
    after.contents export_.targetPath = entry.bytes := by
  have hwrite : (export_.targetPath, entry.bytes) ∈ zipWrites entries resolved := by
    refine mem_map.2 ⟨export_, hmem, ?_⟩
    rw [hentry]
    rfl
  apply contents_of_unique hwrote hwrite
  intro w hw htarget
  obtain ⟨other, hother, rfl⟩ := mem_map.1 hw
  rw [inj_on_of_nodup_map hdistinct hother hmem htarget, hentry]
  rfl

theorem tar_contents {after : FileStore} {export_ : ResolvedDependencyExport}
    (hdistinct : (targets resolved).Nodup) (hmem : export_ ∈ resolved) {m : Member}
    (hlast : lastMatch members export_.spec.archivePath = some m)
    (hwrote : s₁.Wrote (tarWrites resolved members) after) :
    after.contents export_.targetPath = m.bytes := by
  rw [hwrote.contents_eq]
  have hfind : ((tarWrites resolved members).reverse.find? fun w => w.1 = export_.targetPath).map (·.2) =
      (lastMatch members export_.spec.archivePath).map (·.bytes) := by
    clear hlast hwrote
    induction members using reverseRecOn with
    | nil => rfl
    | append_singleton members member ih =>
      rw [tarWrites_concat, reverse_append, find?_append, lastMatch, reverse_concat,
        find?_cons]
      cases hmatch : member.matchesExport export_.spec.archivePath with
      | true =>
        -- All writes for this member have its bytes.
        have hwrite : (export_.targetPath, member.bytes) ∈ ((matchingExports resolved member).map
            fun e => (e.targetPath, member.bytes)).reverse :=
          mem_reverse.2 (mem_map_of_mem (mem_filter.2 ⟨hmem, hmatch⟩))
        obtain ⟨w, hw⟩ : ∃ w, (((matchingExports resolved member).map fun e =>
            (e.targetPath, member.bytes)).reverse.find? fun w => w.1 = export_.targetPath) = some w :=
          Option.isSome_iff_exists.1 (find?_isSome.2 ⟨_, hwrite, by simp⟩)
        obtain ⟨e, -, rfl⟩ := mem_map.1 (mem_reverse.1 (mem_of_find?_eq_some hw))
        rw [hw]
        rfl
      | false =>
        have hnone : (((matchingExports resolved member).map fun e =>
            (e.targetPath, member.bytes)).reverse.find? fun w => w.1 = export_.targetPath) = none := by
          rw [find?_eq_none]
          intro w hw
          obtain ⟨e, he, rfl⟩ := mem_map.1 (mem_reverse.1 hw)
          obtain ⟨hmem', hmatch'⟩ := mem_filter.1 he
          rw [decide_eq_true_eq]
          intro htarget
          rw [inj_on_of_nodup_map hdistinct hmem' hmem htarget, hmatch] at hmatch'
          cases hmatch'
        rw [hnone, Option.none_or]
        exact ih
  rw [hfind, hlast]
  rfl

/-- The member of an export: the one declared when there is one, otherwise one that is the declared one
behind a leading directory. -/
def Preferred (members : List Member) (declared : String) (m : Member) : Prop :=
  m ∈ members ∧ (m.Exact declared ∨ (∀ m' ∈ members, ¬ m'.Exact declared) ∧ m.Stripped declared)

/-- Both formats succeed or neither does, and then each target holds the bytes of the member of its
export in both cases. -/
def FormatIndependent (directory : List Member → List Member) (members : List Member) (root : Path)
    (exports : List DependencyExportSpec) (s : FileStore) : Prop :=
  ((installed (zipPayload directory members) .zip root exports s).isSome ↔
    (installed (tarPayload members) .tarGz root exports s).isSome) ∧
  ∀ zipped unpacked, installed (zipPayload directory members) .zip root exports s = some zipped →
    installed (tarPayload members) .tarGz root exports s = some unpacked →
    ∀ spec ∈ exports, ∀ target, resolveDependencyExportTarget root spec.targetPath = .ok target →
      zipped.contents target = unpacked.contents target ∧
        ∃ m, Preferred members spec.archivePath m ∧ zipped.contents target = m.bytes

/-- The last match of every export has the bytes of the member that the zip reader takes. -/
def LastMatchAgrees (directory : List Member → List Member) (members : List Member)
    (exports : List DependencyExportSpec) : Prop :=
  ∀ spec ∈ exports, (lastMatch members spec.archivePath).map (·.bytes) =
    (zipEntry (directory members) spec.archivePath).map (·.bytes)

theorem lastMatch_isSome (h : ∃ m ∈ members, m.matchesExport declared = true) :
    ∃ m, lastMatch members declared = some m := by
  obtain ⟨m, hm, hmatch⟩ := h
  exact Option.isSome_iff_exists.1 (find?_isSome.2 ⟨m, mem_reverse.2 hm, hmatch⟩)

theorem preferred_of_zipEntry (hdirectory : ZipDirectory directory)
    (h : zipEntry (directory members) declared = some m) : Preferred members declared m := by
  obtain ⟨hmem, hkind⟩ := zipEntry_eq_some h
  refine ⟨hdirectory.mem hmem, hkind.imp_right fun ⟨hno, hstripped⟩ => ⟨?_, hstripped⟩⟩
  intro m' hm' hexact
  obtain ⟨m'', hm'', hname⟩ := hdirectory.name hm'
  refine hno m'' hm'' ?_
  unfold Member.Exact at hexact ⊢
  rw [hname]
  exact hexact

end

/-- The archive format does not matter exactly when the installation is impossible or the last match of
every export has the bytes of the member that the zip reader takes. -/
theorem formatIndependent_iff (directory : List Member → List Member) (hdirectory : ZipDirectory directory)
    (members : List Member) (root : Path) (exports : List DependencyExportSpec) (s : FileStore)
    (hdistinct : ∀ resolved, resolveDependencyExportTargets root exports = .ok resolved →
      (targets resolved).Nodup) :
    FormatIndependent directory members root exports s ↔
      (Installable s root exports members → LastMatchAgrees directory members exports) := by
  have hboth : (installed (zipPayload directory members) .zip root exports s).isSome ↔
      (installed (tarPayload members) .tarGz root exports s).isSome :=
    (zip_installed_isSome hdirectory).trans tar_installed_isSome.symm
  -- The contents of the two targets of one export.
  have hcontents : ∀ zipped unpacked,
      installed (zipPayload directory members) .zip root exports s = some zipped →
      installed (tarPayload members) .tarGz root exports s = some unpacked →
      ∀ spec ∈ exports, ∃ target entry m,
        resolveDependencyExportTarget root spec.targetPath = .ok target ∧
        zipEntry (directory members) spec.archivePath = some entry ∧
        lastMatch members spec.archivePath = some m ∧
        zipped.contents target = entry.bytes ∧ unpacked.contents target = m.bytes := by
    intro zipped unpacked hzipped hunpacked spec hspec
    obtain ⟨resolved, s₁, ws, hadmitted, -, hzip, hwroteZip⟩ := installed_eq_some hzipped
    obtain ⟨resolved', s₂, ws', hadmitted', -, htar, hwroteTar⟩ := installed_eq_some hunpacked
    cases hadmitted.resolves.symm.trans hadmitted'.resolves
    obtain ⟨export_, hmem, rfl⟩ := resolveTargets_exists hadmitted.resolves hspec
    cases hzip with
    | zip hentries hallZip =>
      cases hentries
      cases htar with
      | tarGz hmembers hallTar =>
        cases map_injective_iff.2 (fun _ _ h => Except.ok.inj h) hmembers
        obtain ⟨entry, hentry⟩ := Option.isSome_iff_exists.1 (hallZip export_ hmem)
        obtain ⟨m, hm⟩ := lastMatch_isSome (hallTar export_ hmem)
        have hnodup := hdistinct resolved hadmitted.resolves
        exact ⟨export_.targetPath, entry, m, (resolveTargets_mem hadmitted.resolves hmem).2, hentry, hm,
          zip_contents hwroteZip hnodup hmem hentry, tar_contents hnodup hmem hm hwroteTar⟩
  constructor
  · intro ⟨_, hsame⟩ hinstallable spec hspec
    obtain ⟨zipped, hzipped⟩ :=
      Option.isSome_iff_exists.1 ((zip_installed_isSome hdirectory).2 hinstallable)
    obtain ⟨unpacked, hunpacked⟩ := Option.isSome_iff_exists.1 (tar_installed_isSome.2 hinstallable)
    obtain ⟨target, entry, m, htarget, hentry, hm, hzip, htar⟩ :=
      hcontents zipped unpacked hzipped hunpacked spec hspec
    have heq := (hsame zipped unpacked hzipped hunpacked spec hspec target htarget).1
    rw [hzip, htar] at heq
    rw [hentry, hm, Option.map_some, Option.map_some, heq]
  · intro hagrees
    refine ⟨hboth, fun zipped unpacked hzipped hunpacked spec hspec target htarget => ?_⟩
    have hinstallable := (zip_installed_isSome hdirectory).1
      (Option.isSome_iff_exists.2 ⟨zipped, hzipped⟩)
    obtain ⟨target', entry, m, htarget', hentry, hm, hzip, htar⟩ :=
      hcontents zipped unpacked hzipped hunpacked spec hspec
    cases htarget.symm.trans htarget'
    have hbytes := hagrees hinstallable spec hspec
    rw [hentry, hm, Option.map_some, Option.map_some, Option.some.injEq] at hbytes
    exact ⟨by rw [hzip, htar, hbytes], entry, preferred_of_zipEntry hdirectory hentry, hzip⟩

/-! ## A member and its copy behind a directory -/

/-- One export of a file in the archive's own directory layout. -/
def toolExports : List DependencyExportSpec := [⟨"bin/tool", "tool", false⟩]

def emptyStore : FileStore := ⟨.empty, fun _ => []⟩

theorem zipDirectory_id : ZipDirectory id where
  mem h := h
  name h := ⟨_, h, rfl⟩

theorem nodup_toolExports : ∀ resolved,
    resolveDependencyExportTargets ["deps"] toolExports = .ok resolved → (targets resolved).Nodup := by
  have hresolves : (resolveDependencyExportTargets ["deps"] toolExports).map targets =
      .ok [["deps", "tool"]] := by decide +kernel
  intro resolved h
  rw [h] at hresolves
  rw [Except.ok.inj hresolves]
  exact nodup_singleton _

/-- With the copy before the member both formats take the member. -/
theorem formatIndependent_copy_first : ZipDirectory id ∧
    FormatIndependent id [⟨"x/bin/tool", [66]⟩, ⟨"bin/tool", [65]⟩] ["deps"] toolExports emptyStore := by
  refine ⟨zipDirectory_id, (formatIndependent_iff id zipDirectory_id _ ["deps"] toolExports emptyStore
    nodup_toolExports).2 fun _ spec hspec => ?_⟩
  rw [mem_singleton.1 hspec]
  decide +kernel

/-- With the copy after it, a tar archive leaves the copy in the target. -/
theorem not_formatIndependent_copy_last :
    ¬ FormatIndependent id [⟨"bin/tool", [65]⟩, ⟨"x/bin/tool", [66]⟩] ["deps"] toolExports
      emptyStore := by
  intro ⟨_, hsame⟩
  have hzip : (installed (zipPayload id [⟨"bin/tool", [65]⟩, ⟨"x/bin/tool", [66]⟩]) .zip ["deps"]
      toolExports emptyStore).map (·.contents ["deps", "tool"]) = some [65] := by decide +kernel
  have htar : (installed (tarPayload [⟨"bin/tool", [65]⟩, ⟨"x/bin/tool", [66]⟩]) .tarGz ["deps"]
      toolExports emptyStore).map (·.contents ["deps", "tool"]) = some [66] := by decide +kernel
  obtain ⟨zipped, hzipped, hzip⟩ := Option.map_eq_some_iff.1 hzip
  obtain ⟨unpacked, hunpacked, htar⟩ := Option.map_eq_some_iff.1 htar
  have heq := (hsame zipped unpacked hzipped hunpacked _ mem_cons_self ["deps", "tool"]
    (by decide +kernel)).1
  rw [hzip, htar] at heq
  cases heq

end LuaSkills.Archive
