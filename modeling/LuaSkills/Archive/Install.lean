import LuaSkills.Data.FileProgram
import LuaSkills.Archive.Members

/-!
# Installing a payload

`install_downloaded_payload` as a program over stored files: the targets are resolved and looked at
before anything is written, then the payload's format decides which member goes to which target. A
program that ends well has written the bytes of a member to every target; one that stops has touched
nothing but targets.
-/

namespace LuaSkills.Archive

open EStateM FileStore List FileProg
open Dependency (DependencyExportSpec DependencyArchiveType Path resolveDependencyExportTarget
  validateTargetComponents)

/-- What a downloaded file is to the three readers: its bytes and mode, the directory of a zip archive,
and the stream of a compressed tar archive. -/
structure Payload where
  bytes : List UInt8
  executable : Bool
  zip : Except String (List Member)
  tar : List (Except String Member)

structure ResolvedDependencyExport where
  spec : DependencyExportSpec
  targetPath : Path

def renderArchivePath (path : Path) : String := "/" ++ String.intercalate "/" path

/-! ## Calls -/

def createDirectory (path : Path) : FileProg Unit :=
  createDirAll (fun error => "Failed to create " ++ renderArchivePath path ++ ": " ++ error) path

def openArchive : FileProg Unit := probe fun error => "Failed to open archive: " ++ error

/-- A member copied into a target that is created with its parent directory. -/
def extractMember (describe : String → String) (targetPath : Path) (bytes : List UInt8) :
    FileProg Unit := do
  createDirectory targetPath.dropLast
  create (fun error => "Failed to create " ++ renderArchivePath targetPath ++ ": " ++ error)
    targetPath
  write describe targetPath bytes

def copyFileWithParentDir (source target : Path) : FileProg Unit := do
  createDirectory target.dropLast
  copy (fun error => "Failed to copy " ++ renderArchivePath source ++ " to " ++
    renderArchivePath target ++ ": " ++ error) source target

def markExecutableIfNeeded (target : Path) (executable : Bool) : FileProg Unit :=
  if executable then do
    probe fun error => "Failed to stat " ++ renderArchivePath target ++ ": " ++ error
    setExecutable (fun error => "Failed to chmod " ++ renderArchivePath target ++ ": " ++ error)
      target
  else pure ()

/-! ## Targets -/

def resolveDependencyExportTargets (root : Path) (exports : List DependencyExportSpec) :
    Except String (List ResolvedDependencyExport) :=
  exports.mapM fun spec => (resolveDependencyExportTarget root spec.targetPath).map fun targetPath =>
    ⟨spec, targetPath⟩

def validateDependencyExportTargetDiskState (root target : Path) : FileProg Unit := do
  probe fun error => "Failed to inspect dependency export target component: " ++ error
  check fun s => validateTargetComponents s.tree root (target.drop root.length)

/-! ## Formats -/

def installFromRawFile (payload : Payload) : List ResolvedDependencyExport → FileProg Unit
  | [export_] => do
    createDirectory export_.targetPath.dropLast
    copyIn (fun error => "Failed to copy to " ++ renderArchivePath export_.targetPath ++ ": " ++
      error) payload.bytes payload.executable export_.targetPath
    markExecutableIfNeeded export_.targetPath export_.spec.executable
  | _ => throw "raw dependency payload must declare exactly one export"

def installZipExport (entries : List Member) (export_ : ResolvedDependencyExport) : FileProg Unit :=
  match zipEntry entries export_.spec.archivePath with
  | none => throw ("Failed to read zip entry '" ++ export_.spec.archivePath ++
      "': specified file not found in archive")
  | some entry => do
    extractMember (fun error => "Failed to extract '" ++ export_.spec.archivePath ++ "' into " ++
      renderArchivePath export_.targetPath ++ ": " ++ error) export_.targetPath entry.bytes
    markExecutableIfNeeded export_.targetPath export_.spec.executable

def installFromZipArchive (payload : Payload) (exports : List ResolvedDependencyExport) :
    FileProg Unit := do
  openArchive
  let entries ← check fun _ => payload.zip
  exports.forM (installZipExport entries)

def matchingExports (exports : List ResolvedDependencyExport) (member : Member) :
    List ResolvedDependencyExport :=
  exports.filter fun export_ => member.matchesExport export_.spec.archivePath

/-- One member for all exports that match it: it is streamed into the target of the first one, and the
other targets are copies of that file. -/
def unpackMember (member : Member) : List ResolvedDependencyExport → FileProg Unit
  | [] => pure ()
  | first :: remaining => do
    extractMember (fun error => "Failed to extract '" ++ first.spec.archivePath ++ "': " ++ error)
      first.targetPath member.bytes
    remaining.forM fun export_ =>
      if export_.targetPath ≠ first.targetPath then
        copyFileWithParentDir first.targetPath export_.targetPath
      else pure ()

/-- What a pass over a tar archive leaves: for each export whether a member matched it, and the targets
in the order in which they were written. -/
structure TarPass where
  matchedExports : List Bool
  extractedEntries : List (Path × Bool)

def unpackEntries (exports : List ResolvedDependencyExport) :
    List (Except String Member) → TarPass → FileProg TarPass
  | [], pass => pure pass
  | .error error :: _, _ => throw ("Failed to read tar entry: " ++ error)
  | .ok member :: rest, pass => do
    unpackMember member (matchingExports exports member)
    unpackEntries exports rest
      { matchedExports := zipWith
          (fun matched export_ => matched || member.matchesExport export_.spec.archivePath)
          pass.matchedExports exports
        extractedEntries := pass.extractedEntries ++
          (matchingExports exports member).map fun export_ =>
            (export_.targetPath, export_.spec.executable) }

def installFromTarGzArchive (payload : Payload) (exports : List ResolvedDependencyExport) :
    FileProg Unit := do
  openArchive
  let pass ← unpackEntries exports payload.tar ⟨exports.map fun _ => false, []⟩
  (exports.zip pass.matchedExports).forM fun entry =>
    if entry.2 = false then
      throw ("tar.gz archive does not contain required export '" ++ entry.1.spec.archivePath ++ "'")
    else pure ()
  pass.extractedEntries.forM fun entry => markExecutableIfNeeded entry.1 entry.2

def installDownloadedPayload (payload : Payload) (archiveType : DependencyArchiveType)
    (installRoot : Path) (exports : List DependencyExportSpec) : FileProg Unit := do
  let resolvedExports ← check fun _ => resolveDependencyExportTargets installRoot exports
  resolvedExports.forM fun export_ =>
    validateDependencyExportTargetDiskState installRoot export_.targetPath
  createDirectory installRoot
  match archiveType with
  | .raw => installFromRawFile payload resolvedExports
  | .zip => installFromZipArchive payload resolvedExports
  | .tarGz => installFromTarGzArchive payload resolvedExports

/-! ## What a successful installation writes -/

def targets (exports : List ResolvedDependencyExport) : List Path := exports.map (·.targetPath)

def zipWrites (entries : List Member) (exports : List ResolvedDependencyExport) :
    List (Path × List UInt8) :=
  exports.map fun export_ =>
    (export_.targetPath, ((zipEntry entries export_.spec.archivePath).map (·.bytes)).getD [])

def tarWrites (exports : List ResolvedDependencyExport) (members : List Member) :
    List (Path × List UInt8) :=
  members.flatMap fun member => (matchingExports exports member).map fun export_ =>
    (export_.targetPath, member.bytes)

def passOf (exports : List ResolvedDependencyExport) (members : List Member) : TarPass where
  matchedExports := exports.map fun export_ =>
    members.any fun member => member.matchesExport export_.spec.archivePath
  extractedEntries := members.flatMap fun member => (matchingExports exports member).map fun export_ =>
    (export_.targetPath, export_.spec.executable)

section
variable {s₀ : FileStore} {ws : List (Path × List UInt8)} {ts : List Path} {target : Path}
  {exports : List ResolvedDependencyExport} {payload : Payload}

theorem triple_createDirectory (hws : ∀ w ∈ ws, w.1 ∈ ts) :
    Triple (fun w => s₀.Wrote ws w.store) (createDirectory target) (fun _ w => s₀.Wrote ws w.store)
      fun w => s₀.Touched ts w.store :=
  triple_createDirAll hws

theorem triple_extractMember (hws : ∀ w ∈ ws, w.1 ∈ ts) (ht : target ∈ ts) :
    Triple (fun w => s₀.Wrote ws w.store) (extractMember d target bytes)
      (fun _ w => s₀.Wrote (ws ++ [(target, bytes)]) w.store) fun w => s₀.Touched ts w.store := by
  apply (triple_createDirectory hws).bind
  intro _
  apply (triple_create hws).bind
  intro _
  exact triple_write hws ht

theorem triple_markExecutable (hws : ∀ w ∈ ws, w.1 ∈ ts) :
    Triple (fun w => s₀.Wrote ws w.store) (markExecutableIfNeeded target executable)
      (fun _ w => s₀.Wrote ws w.store) fun w => s₀.Touched ts w.store := by
  unfold markExecutableIfNeeded
  split
  · have hstat := triple_probe (P := s₀.Wrote ws)
      (d := fun error => "Failed to stat " ++ renderArchivePath target ++ ": " ++ error)
    apply (hstat.mono (fun _ hs => hs) (fun _ _ hs => hs) fun _ hs => hs.touched hws).bind
    intro _
    exact triple_setExecutable hws
  · exact .pure fun _ hs => hs

theorem triple_raw (hts : targets exports ⊆ ts) :
    Triple (fun w => s₀.Wrote [] w.store) (installFromRawFile payload exports)
      (fun _ w => ∃ export_, exports = [export_] ∧
        s₀.Wrote [(export_.targetPath, payload.bytes)] w.store)
      fun w => s₀.Touched ts w.store := by
  match exports with
  | [export_] =>
    have ht : export_.targetPath ∈ ts := hts mem_cons_self
    have hnil : ∀ w ∈ ([] : List (Path × List UInt8)), w.1 ∈ ts := fun w hw => nomatch hw
    apply (triple_createDirectory hnil).bind
    intro _
    apply (triple_copyIn hnil ht).bind
    intro _
    refine (triple_markExecutable (forall_concat hnil ht)).mono (fun _ hs => hs) ?_
      fun _ hs => hs
    exact fun _ w hw => ⟨export_, rfl, hw⟩
  | [] => exact .throw fun _ hs => hs.touched fun w hw => nomatch hw
  | _ :: _ :: _ => exact .throw fun _ hs => hs.touched fun w hw => nomatch hw

theorem fst_mem_zipWrites (hw : w ∈ zipWrites entries exports) : w.1 ∈ targets exports := by
  obtain ⟨export_, hmem, rfl⟩ := mem_map.1 hw
  exact mem_map_of_mem hmem

theorem fst_mem_tarWrites (hw : w ∈ tarWrites exports members) : w.1 ∈ targets exports := by
  obtain ⟨member, -, hw⟩ := mem_flatMap.1 hw
  obtain ⟨export_, hmem, rfl⟩ := mem_map.1 hw
  exact mem_map_of_mem (mem_filter.1 hmem).1

theorem triple_zipExport {export_ : ResolvedDependencyExport} (hws : ∀ w ∈ ws, w.1 ∈ ts)
    (ht : export_.targetPath ∈ ts) :
    Triple (fun w => s₀.Wrote ws w.store) (installZipExport entries export_)
      (fun _ w => (zipEntry entries export_.spec.archivePath).isSome ∧
        s₀.Wrote (ws ++ zipWrites entries [export_]) w.store)
      fun w => s₀.Touched ts w.store := by
  unfold installZipExport zipWrites
  rw [map_singleton]
  cases zipEntry entries export_.spec.archivePath with
  | none => exact .throw fun w hw => hw.touched hws
  | some entry =>
    apply (triple_extractMember hws ht).bind
    intro _
    exact (triple_markExecutable (forall_concat hws ht)).mono (fun _ hs => hs)
      (fun _ _ hs => ⟨rfl, hs⟩) fun _ hs => hs

theorem triple_zip (hts : targets exports ⊆ ts) :
    Triple (fun w => s₀.Wrote [] w.store) (installFromZipArchive payload exports)
      (fun _ w => ∃ entries, payload.zip = .ok entries ∧
        (∀ export_ ∈ exports, (zipEntry entries export_.spec.archivePath).isSome) ∧
          s₀.Wrote (zipWrites entries exports) w.store)
      fun w => s₀.Touched ts w.store := by
  have hnil : ∀ w ∈ ([] : List (Path × List UInt8)), w.1 ∈ ts := fun w hw => nomatch hw
  apply Triple.bind (Q := fun _ w => s₀.Wrote [] w.store)
  · exact triple_probe.mono (fun _ hs => hs) (fun _ _ hs => hs) fun _ hs => hs.touched hnil
  intro _
  apply Triple.bind (Q := fun entries w => payload.zip = .ok entries ∧ s₀.Wrote [] w.store)
  · exact triple_check (fun w a hw h => ⟨h, hw⟩) fun w e hw _ => hw.touched hnil
  intro entries
  have hloop := Triple.forM (f := installZipExport entries) (E := fun w => s₀.Touched ts w.store)
    (I := fun done w => payload.zip = .ok entries ∧
      (∀ export_ ∈ done, (zipEntry entries export_.spec.archivePath).isSome) ∧
        s₀.Wrote (zipWrites entries done) w.store) exports ?_
  · exact hloop.mono (fun w hw => ⟨hw.1, fun _ h => (nomatch h), hw.2⟩)
      (fun _ w hw => ⟨entries, hw⟩) fun _ hs => hs
  intro done export_ rest heq
  have hdone : ∀ w ∈ zipWrites entries done, w.1 ∈ ts := fun w hw => by
    have hmem := fst_mem_zipWrites hw
    apply hts
    rw [← heq, targets, map_append]
    exact mem_append_left _ hmem
  have htarget : export_.targetPath ∈ ts :=
    hts (mem_map_of_mem (heq ▸ mem_append_right _ mem_cons_self))
  apply Triple.of_and
  intro hzip
  apply Triple.of_and
  intro hall
  refine (triple_zipExport hdone htarget).mono (fun _ hs => hs) (fun _ w hw => ⟨hzip, ?_, ?_⟩)
    fun _ hs => hs
  · intro e he
    rcases mem_append.1 he with he | he
    · exact hall e he
    · rw [mem_singleton.1 he]
      exact hw.1
  · rw [zipWrites, map_append]
    exact hw.2

/-- A file that was only written with the same bytes has these. -/
theorem contents_of_unique (H : s₀.Wrote ws s) (hw : w ∈ ws) (hunique : ∀ w' ∈ ws, w'.1 = w.1 → w'.2 = w.2) :
    s.contents w.1 = w.2 := by
  obtain ⟨found, hfound⟩ : ∃ found, ws.reverse.find? (fun w' => w'.1 = w.1) = some found :=
    Option.isSome_iff_exists.1 (find?_isSome.2 ⟨w, mem_reverse.2 hw, by simp⟩)
  have htarget := find?_some hfound
  rw [decide_eq_true_eq] at htarget
  rw [H.contents_eq, hfound]
  exact hunique found (mem_reverse.1 (mem_of_find?_eq_some hfound)) htarget

/-- A file whose last writes all had the same bytes has these. -/
theorem contents_of_last {s : FileStore} {p : Path} {bytes : List UInt8}
    {last : List (Path × List UInt8)} (H : s₀.Wrote (ws ++ last) s) (hp : ∃ w ∈ last, w.1 = p)
    (hlast : ∀ w ∈ last, w.2 = bytes) : s.contents p = bytes := by
  obtain ⟨w, hw, hwp⟩ := hp
  obtain ⟨found, hfound⟩ : ∃ found, last.reverse.find? (fun w => w.1 = p) = some found :=
    Option.isSome_iff_exists.1 (find?_isSome.2 ⟨w, mem_reverse.2 hw, by simpa using hwp⟩)
  rw [H.contents_eq, reverse_append, find?_append, hfound]
  exact hlast found (mem_reverse.1 (mem_of_find?_eq_some hfound))

theorem triple_unpackMember (hws : ∀ w ∈ ws, w.1 ∈ ts) (hmatching : targets matching ⊆ ts) :
    Triple (fun w => s₀.Wrote ws w.store) (unpackMember member matching)
      (fun _ w => s₀.Wrote (ws ++ matching.map fun e => (e.targetPath, member.bytes)) w.store)
      fun w => s₀.Touched ts w.store := by
  match matching with
  | [] => exact .pure fun w hw => by simpa using hw
  | first :: remaining =>
    apply (triple_extractMember hws (hmatching mem_cons_self)).bind
    intro _
    have hloop := Triple.forM
      (f := fun export_ : ResolvedDependencyExport =>
        if export_.targetPath ≠ first.targetPath then
          copyFileWithParentDir first.targetPath export_.targetPath
        else Pure.pure ())
      (E := fun w => s₀.Touched ts w.store)
      (I := fun done w => s₀.Wrote (ws ++ (first :: done).map fun e => (e.targetPath, member.bytes))
        w.store) remaining ?_
    · exact hloop
    intro done export_ rest heq
    have hmem : ∀ e ∈ first :: done, e ∈ first :: remaining := by
      intro e he
      rcases mem_cons.1 he with rfl | he
      · exact mem_cons_self
      · exact mem_cons_of_mem _ (heq ▸ mem_append_left _ he)
    have hwrites : ∀ w ∈ ws ++ (first :: done).map fun e => (e.targetPath, member.bytes),
        w.1 ∈ ts := by
      intro w hw
      rcases mem_append.1 hw with hw | hw
      · exact hws w hw
      · obtain ⟨e, he, rfl⟩ := mem_map.1 hw
        exact hmatching (mem_map_of_mem (hmem e he))
    have htarget : export_.targetPath ∈ ts := hmatching (mem_map_of_mem
      (mem_cons_of_mem _ (heq ▸ mem_append_right _ mem_cons_self)))
    have hfirst : ∀ {s}, s₀.Wrote (ws ++ (first :: done).map fun e => (e.targetPath, member.bytes)) s →
        s.contents first.targetPath = member.bytes := by
      intro s H
      apply contents_of_last H
      · exact ⟨_, mem_map_of_mem mem_cons_self, rfl⟩
      · intro w hw
        obtain ⟨e, -, rfl⟩ := mem_map.1 hw
        rfl
    have happend : ws ++ (first :: (done ++ [export_])).map (fun e => (e.targetPath, member.bytes)) =
        (ws ++ (first :: done).map fun e => (e.targetPath, member.bytes)) ++
          [(export_.targetPath, member.bytes)] := by simp
    simp only [happend]
    split
    · apply (triple_createDirectory hwrites).bind
      intro _
      exact (triple_copy hwrites htarget).mono (fun w hw => ⟨hw, hfirst hw⟩)
        (fun _ _ hs => hs) fun _ hs => hs
    next hsame =>
      rw [ne_eq, not_not] at hsame
      apply Triple.pure
      intro w hw
      -- The target is that of the first export, which holds these bytes.
      have hfile : w.store.IsFile export_.targetPath :=
        (hw.isFile _).2 (.inr ⟨_, mem_append_right _ (mem_map_of_mem mem_cons_self),
          hsame.symm⟩)
      have hrewrite := hw.rewrite hfile
      rwa [hsame, hfirst hw, ← hsame] at hrewrite

end

section
variable {s₀ : FileStore} {ts : List Path}
  {exports : List ResolvedDependencyExport} {payload : Payload}

theorem passOf_concat (exports : List ResolvedDependencyExport) (members : List Member)
    (member : Member) :
    passOf exports (members ++ [member]) =
      { matchedExports := zipWith
          (fun matched export_ => matched || member.matchesExport export_.spec.archivePath)
          (passOf exports members).matchedExports exports
        extractedEntries := (passOf exports members).extractedEntries ++
          (matchingExports exports member).map fun export_ =>
            (export_.targetPath, export_.spec.executable) } := by
  unfold passOf
  congr 1
  · rw [zipWith_map_left, zipWith_self]
    apply map_congr_left
    intro export_ _
    rw [any_append, any_cons, any_nil, Bool.or_false]
  · rw [flatMap_append, flatMap_singleton]

theorem tarWrites_concat (exports : List ResolvedDependencyExport) (members : List Member)
    (member : Member) :
    tarWrites exports (members ++ [member]) = tarWrites exports members ++
      (matchingExports exports member).map fun e => (e.targetPath, member.bytes) := by
  rw [tarWrites, flatMap_append, flatMap_singleton, tarWrites]

theorem targets_matchingExports (member : Member) :
    targets (matchingExports exports member) ⊆ targets exports :=
  map_subset _ (filter_subset_self _)

theorem triple_unpackEntries (hts : targets exports ⊆ ts) (stream : List (Except String Member))
    (done : List Member) :
    Triple (fun w => s₀.Wrote (tarWrites exports done) w.store)
      (unpackEntries exports stream (passOf exports done))
      (fun pass w => ∃ members, stream = members.map .ok ∧ pass = passOf exports (done ++ members) ∧
        s₀.Wrote (tarWrites exports (done ++ members)) w.store)
      fun w => s₀.Touched ts w.store := by
  have hwrites : ∀ members, ∀ w ∈ tarWrites exports members, w.1 ∈ ts :=
    fun members w hw => hts (fst_mem_tarWrites hw)
  induction stream generalizing done with
  | nil =>
    apply Triple.pure
    intro w hw
    exact ⟨[], rfl, by rw [append_nil], by rwa [append_nil]⟩
  | cons entry stream ih =>
    cases entry with
    | error error => exact .throw fun w hw => hw.touched (hwrites done)
    | ok member =>
      rw [unpackEntries, ← passOf_concat]
      apply Triple.bind (Q := fun _ w => s₀.Wrote (tarWrites exports (done ++ [member])) w.store)
      · rw [tarWrites_concat]
        exact triple_unpackMember (hwrites done) (Subset.trans (targets_matchingExports member) hts)
      · intro _
        refine (ih (done ++ [member])).mono (fun _ hs => hs) ?_ fun _ hs => hs
        intro pass w ⟨members, hstream, hpass, hw⟩
        rw [append_assoc] at hpass hw
        exact ⟨member :: members, by rw [hstream]; rfl, hpass, hw⟩

theorem triple_tarGz (hts : targets exports ⊆ ts) :
    Triple (fun w => s₀.Wrote [] w.store) (installFromTarGzArchive payload exports)
      (fun _ w => ∃ members, payload.tar = members.map .ok ∧
        (∀ export_ ∈ exports, ∃ m ∈ members, m.matchesExport export_.spec.archivePath = true) ∧
          s₀.Wrote (tarWrites exports members) w.store)
      fun w => s₀.Touched ts w.store := by
  have hnil : ∀ w ∈ ([] : List (Path × List UInt8)), w.1 ∈ ts := fun w hw => nomatch hw
  apply Triple.bind (Q := fun _ w => s₀.Wrote [] w.store)
  · exact triple_probe.mono (fun _ hs => hs) (fun _ _ hs => hs) fun _ hs => hs.touched hnil
  intro _
  apply (triple_unpackEntries hts payload.tar []).bind
  intro pass
  simp only [nil_append]
  apply Triple.of_exists
  intro members
  apply Triple.of_and
  intro hstream
  apply Triple.of_and
  rintro rfl
  have hwrites : ∀ w ∈ tarWrites exports members, w.1 ∈ ts := fun w hw => hts (fst_mem_tarWrites hw)
  have hcheck := Triple.forM
    (f := fun entry : ResolvedDependencyExport × Bool =>
      if entry.2 = false then
        (throw ("tar.gz archive does not contain required export '" ++ entry.1.spec.archivePath ++
          "'") : FileProg PUnit)
      else Pure.pure ())
    (E := fun w => s₀.Touched ts w.store)
    (I := fun done w => (∀ entry ∈ done, entry.2 = true) ∧ s₀.Wrote (tarWrites exports members) w.store)
    (exports.zip (passOf exports members).matchedExports) ?_
  · apply (hcheck.mono (fun w hw => ⟨fun _ h => (nomatch h), hw⟩) (fun _ _ hs => hs)
      fun _ hs => hs).bind
    intro _
    apply Triple.of_and
    intro hall
    have hmatched : ∀ export_ ∈ exports, ∃ m ∈ members,
        m.matchesExport export_.spec.archivePath = true := by
      intro export_ hmem
      have hentry := hall (export_, members.any fun m => m.matchesExport export_.spec.archivePath) (by
        change _ ∈ exports.zip (exports.map _)
        rw [← map_prod_left_eq_zip]
        exact mem_map_of_mem hmem)
      exact any_eq_true.1 hentry
    refine (Triple.forM (E := fun w => s₀.Touched ts w.store)
      (I := fun _ w => s₀.Wrote (tarWrites exports members) w.store)
      (passOf exports members).extractedEntries fun _ entry _ _ =>
        triple_markExecutable hwrites).mono (fun _ hs => hs) ?_ fun _ hs => hs
    exact fun _ w hw => ⟨members, hstream, hmatched, hw⟩
  · intro done entry rest _
    apply Triple.of_and
    intro hall
    split
    · exact .throw fun w hw => hw.touched hwrites
    next hmatched =>
      refine .pure fun w hw => ⟨fun e he => ?_, hw⟩
      rcases mem_append.1 he with he | he
      · exact hall e he
      · rw [mem_singleton.1 he]
        exact Bool.not_eq_false _ ▸ hmatched

end

inductive Unpacked (payload : Payload) (exports : List ResolvedDependencyExport) :
    DependencyArchiveType → List (Path × List UInt8) → Prop
  | raw {export_ : ResolvedDependencyExport} (hone : exports = [export_]) :
    Unpacked payload exports .raw [(export_.targetPath, payload.bytes)]
  | zip {entries : List Member} (hzip : payload.zip = .ok entries)
    (hall : ∀ export_ ∈ exports, (zipEntry entries export_.spec.archivePath).isSome) :
    Unpacked payload exports .zip (zipWrites entries exports)
  | tarGz {members : List Member} (htar : payload.tar = members.map .ok)
    (hall : ∀ export_ ∈ exports, ∃ m ∈ members, m.matchesExport export_.spec.archivePath = true) :
    Unpacked payload exports .tarGz (tarWrites exports members)

/-- The exports have targets below the root, and nothing on the disk speaks against them. -/
structure Admitted (s : FileStore) (root : Path) (exports : List DependencyExportSpec)
    (resolved : List ResolvedDependencyExport) : Prop where
  resolves : resolveDependencyExportTargets root exports = .ok resolved
  validates : ∀ export_ ∈ resolved,
    validateTargetComponents s.tree root (export_.targetPath.drop root.length) = .ok ()

section
variable {s₀ s : FileStore} {ws : List (Path × List UInt8)} {ts : List Path} {root target : Path}
  {resolved : List ResolvedDependencyExport} {payload : Payload} {exports : List DependencyExportSpec}
  {archiveType : DependencyArchiveType}

theorem Unpacked.fst_mem (h : Unpacked payload resolved archiveType ws) :
    (∃ w ∈ ws, w.1 = target) ↔ target ∈ targets resolved := by
  cases h with
  | raw hone => simp [hone, targets, eq_comm]
  | zip hzip hall => simp [zipWrites, targets]
  | tarGz htar hall =>
    constructor
    · intro ⟨w, hw, h⟩
      exact h ▸ fst_mem_tarWrites hw
    · intro h
      obtain ⟨export_, hmem, rfl⟩ := mem_map.1 h
      obtain ⟨m, hm, hmatch⟩ := hall export_ hmem
      refine ⟨(export_.targetPath, m.bytes), mem_flatMap.2 ⟨m, hm, ?_⟩, rfl⟩
      exact mem_map_of_mem (mem_filter.2 ⟨hmem, hmatch⟩)

theorem resolveTargets_cons
    (h : resolveDependencyExportTargets root (spec :: exports) = .ok resolved) :
    ∃ target rest, resolveDependencyExportTarget root spec.targetPath = .ok target ∧
      resolveDependencyExportTargets root exports = .ok rest ∧ resolved = ⟨spec, target⟩ :: rest := by
  rw [resolveDependencyExportTargets, mapM_cons] at h
  obtain ⟨first, hfirst, h⟩ := Except.bind_eq_ok.1 h
  obtain ⟨rest, hrest, h⟩ := Except.bind_eq_ok.1 h
  cases h
  cases htarget : resolveDependencyExportTarget root spec.targetPath with
  | error error => rw [htarget] at hfirst; cases hfirst
  | ok target =>
    rw [htarget] at hfirst
    cases hfirst
    exact ⟨target, rest, rfl, hrest, rfl⟩

theorem resolveTargets_mem (h : resolveDependencyExportTargets root exports = .ok resolved)
    (hmem : export_ ∈ resolved) : export_.spec ∈ exports ∧
      resolveDependencyExportTarget root export_.spec.targetPath = .ok export_.targetPath := by
  induction exports generalizing resolved with
  | nil =>
    cases h
    cases hmem
  | cons spec exports ih =>
    obtain ⟨target, rest, htarget, hrest, rfl⟩ := resolveTargets_cons h
    rcases mem_cons.1 hmem with rfl | hmem
    · exact ⟨mem_cons_self, htarget⟩
    · exact (ih hrest hmem).imp_left (mem_cons_of_mem spec)

theorem resolveTargets_exists (h : resolveDependencyExportTargets root exports = .ok resolved)
    (hmem : spec ∈ exports) : ∃ export_ ∈ resolved, export_.spec = spec := by
  induction exports generalizing resolved with
  | nil => cases hmem
  | cons first exports ih =>
    obtain ⟨target, rest, -, hrest, rfl⟩ := resolveTargets_cons h
    rcases mem_cons.1 hmem with rfl | hmem
    · exact ⟨_, mem_cons_self, rfl⟩
    · obtain ⟨export_, hmem, hspec⟩ := ih hrest hmem
      exact ⟨export_, mem_cons_of_mem _ hmem, hspec⟩

theorem targets_below (h : resolveDependencyExportTargets root exports = .ok resolved) :
    ∀ t ∈ targets resolved, root <+: t ∧ t ≠ root := by
  intro t ht
  obtain ⟨export_, hmem, rfl⟩ := mem_map.1 ht
  obtain ⟨names, hne, heq, -⟩ := Dependency.resolveTarget_eq_ok (resolveTargets_mem h hmem).2
  rw [heq]
  exact ⟨prefix_append root names, by simpa using hne⟩

theorem triple_validate :
    Triple (fun w => w.store = s₀) (validateDependencyExportTargetDiskState root target)
      (fun _ w => validateTargetComponents s₀.tree root (target.drop root.length) = .ok () ∧
        w.store = s₀)
      fun w => s₀.Touched ts w.store := by
  have htouched : ∀ {s : FileStore}, s = s₀ → s₀.Touched ts s :=
    fun h => h ▸ (Wrote.refl _).touched fun w hw => nomatch hw
  apply Triple.bind (Q := fun _ w => w.store = s₀)
  · have hprobe := @triple_probe
      (fun error => "Failed to inspect dependency export target component: " ++ error) (· = s₀)
    exact hprobe.mono (fun _ hs => hs) (fun _ _ hs => hs) fun _ hs => htouched hs
  · intro _
    exact triple_check (fun w a hw h => ⟨hw ▸ h, hw⟩) fun w e hw _ => htouched hw

/-- What an installation that ends well has done, and what one that fails has touched. -/
theorem triple_install :
    Triple (fun w => w.store = s₀) (installDownloadedPayload payload archiveType root exports)
      (fun _ w => ∃ resolved s₁ ws, Admitted s₀ root exports resolved ∧
        s₀.createDirAll root = some s₁ ∧ Unpacked payload resolved archiveType ws ∧
          s₁.Wrote ws w.store)
      fun w => ∃ ts, (∀ t ∈ ts, root <+: t) ∧ s₀.Touched ts w.store := by
  have htouched : ∀ {s : FileStore}, s = s₀ → ∃ ts, (∀ t ∈ ts, root <+: t) ∧ s₀.Touched ts s :=
    fun h => ⟨[], fun t ht => (nomatch ht), h ▸ (Wrote.refl _).touched fun w hw => nomatch hw⟩
  apply Triple.bind (Q := fun resolved w =>
    resolveDependencyExportTargets root exports = .ok resolved ∧ w.store = s₀)
  · exact triple_check (fun w a hw h => ⟨h, hw⟩) fun w e hw _ => htouched hw
  intro resolved
  apply Triple.of_and
  intro hresolves
  have hbelow : ∀ t ∈ targets resolved, root <+: t := fun t ht => (targets_below hresolves t ht).1
  apply Triple.bind (Q := fun _ w => Admitted s₀ root exports resolved ∧ w.store = s₀)
  · refine (Triple.forM (E := fun w => s₀.Touched (targets resolved) w.store)
      (I := fun done w => (∀ export_ ∈ done, validateTargetComponents s₀.tree root
        (export_.targetPath.drop root.length) = .ok ()) ∧ w.store = s₀) resolved ?_).mono
      (fun w hw => ⟨fun _ h => (nomatch h), hw⟩) (fun _ w hw => ⟨⟨hresolves, hw.1⟩, hw.2⟩)
      fun _ hs => ⟨_, hbelow, hs⟩
    intro done export_ rest _
    apply Triple.of_and
    intro hdone
    refine triple_validate.mono (fun _ hs => hs) (fun _ w hw => ⟨?_, hw.2⟩)
      fun _ hs => hs
    intro e he
    rcases mem_append.1 he with he | he
    · exact hdone e he
    · rw [mem_singleton.1 he]
      exact hw.1
  intro _
  apply Triple.of_and
  intro hadmitted
  apply Triple.bind (Q := fun _ w => ∃ s₁, s₀.createDirAll root = some s₁ ∧ w.store = s₁)
  · unfold createDirectory FileProg.createDirAll
    apply triple_perform (P := fun s => s = s₀)
      (Q := fun s => ∃ s₁, s₀.createDirAll root = some s₁ ∧ s = s₁)
      (E := fun s => ∃ ts, (∀ t ∈ ts, root <+: t) ∧ s₀.Touched ts s)
    · intro s s' hs h
      exact ⟨s', hs ▸ h, rfl⟩
    · exact fun s hs => htouched hs
    · intro fault s hs
      subst hs
      cases hdone : fault.done.bind fun n => s.createDirAll (root.take n) with
      | none => exact htouched rfl
      | some s' =>
        obtain ⟨n, -, hcreate⟩ := Option.bind_eq_some_iff.1 hdone
        exact ⟨[], fun t ht => (nomatch ht),
          ((Wrote.refl s).createDirAll hcreate).touched fun w hw => nomatch hw⟩
  intro _
  apply Triple.of_exists
  intro s₁
  apply Triple.of_and
  intro hcreate
  have hwrote : ∀ w : FileWorld, w.store = s₁ → s₁.Wrote [] w.store := fun w hw => hw ▸ Wrote.refl _
  have herror : ∀ w : FileWorld, s₁.Touched (targets resolved) w.store →
      ∃ ts, (∀ t ∈ ts, root <+: t) ∧ s₀.Touched ts w.store :=
    fun w ⟨ws, hw, hws⟩ => ⟨_, hbelow, ws, hw.of_createDirAll hcreate, hws⟩
  cases archiveType with
  | raw =>
    exact (triple_raw (Subset.refl _)).mono hwrote (fun _ w ⟨export_, hone, hw⟩ =>
      ⟨resolved, s₁, _, hadmitted, hcreate, .raw hone, hw⟩) herror
  | zip =>
    exact (triple_zip (Subset.refl _)).mono hwrote (fun _ w ⟨entries, hzip, hall, hw⟩ =>
      ⟨resolved, s₁, _, hadmitted, hcreate, .zip hzip hall, hw⟩) herror
  | tarGz =>
    exact (triple_tarGz (Subset.refl _)).mono hwrote (fun _ w ⟨members, htar, hall, hw⟩ =>
      ⟨resolved, s₁, _, hadmitted, hcreate, .tarGz htar hall, hw⟩) herror

end

end LuaSkills.Archive
