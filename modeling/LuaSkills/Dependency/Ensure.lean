import LuaSkills.Archive.Install
import LuaSkills.Dependency.Cleanup

/-!
# Ensuring dependencies on a disk that can fail

`install_dependency` over stored files: the payload of a dependency is written in place, member by
member, and every call of the file system may fail. The world also keeps, for the statements, the
installations that ended well.
-/

namespace LuaSkills.Dependency.OnDisk

open EStateM FileStore List
open Archive (Payload Member Unpacked ResolvedDependencyExport resolveDependencyExportTargets)

structure Installation where
  request : ResolvedDependencyRequest
  payload : Payload

@[ext] structure DependencyWorld where
  store : FileStore
  installed : List Installation

abbrev EnsureProg := EStateM String DependencyWorld

structure PayloadAnswer where
  download : Except String Payload
  faults : List (Option CallFault)

/-- What the environment answers to one ensure attempt. -/
structure EnsureAnswers where
  source : SourceAnswers
  probe : List (Option CallFault)
  recheck : List (Option CallFault)
  first : PayloadAnswer
  cleanup : List (Option CallFault)
  second : PayloadAnswer
  detection : List (Option CallFault)

namespace EnsureProg

/-- Calls of the file system with the answers to them. -/
def runFiles {α : Type} (faults : List (Option CallFault)) (x : FileProg α) : EnsureProg α := fun w =>
  match x ⟨w.store, faults⟩ with
  | .ok a f => .ok a { w with store := f.store }
  | .error e f => .error e { w with store := f.store }

/-- The installation ended well. -/
def record (installation : Installation) : EnsureProg Unit := fun w =>
  .ok () { w with installed := w.installed ++ [installation] }

end EnsureProg

open EnsureProg (runFiles)

/-! ## Detection -/

def inspectError (error : String) : String :=
  "Failed to inspect dependency export target: " ++ error

def findExistingLocalDependencyRequest (config : DependencyManagerConfig) (digest : Digest)
    (job : DependencyJob) : FileProg (Option ResolvedDependencyRequest) := do
  FileProg.probe inspectError
  FileProg.check fun s => Dependency.findExistingLocalDependencyRequest config digest s.tree job

def detectDependency (request : ResolvedDependencyRequest) : FileProg DependencyDetectionStatus := do
  FileProg.probe inspectError
  FileProg.check fun s => Dependency.detectDependency s.tree request

/-! ## Clean-up -/

/-- The payload lies in the download cache, outside the tree. -/
def removeFailedDependencyDownload : FileProg Unit :=
  FileProg.probe fun error => "Failed to remove failed dependency download before redownload: " ++ error

def failedDependencyInstallRootIsDirectory (installRoot : Path) : FileProg Bool := do
  FileProg.probe fun error => "Failed to inspect failed dependency install root " ++
    renderDependencyManagerPath installRoot ++ " before reinstall: " ++ error
  FileProg.check fun s =>
    match s.tree.lookup installRoot with
    | none => .ok false
    | some entry =>
      if entry.isDir then .ok true
      else .error ("Failed dependency install root is not a directory before reinstall: " ++
        renderDependencyManagerPath installRoot)

def removeFailedDependencyInstallRoot (installRoot : Path) : FileProg Unit := do
  let isDirectory ← failedDependencyInstallRootIsDirectory installRoot
  if isDirectory then
    FileProg.removeDirAll (fun error => "Failed to remove failed dependency install root " ++
      renderDependencyManagerPath installRoot ++ " before reinstall: " ++ error) installRoot
  else pure ()

def cleanupFailedDependencyInstallAttempt (installRoot : Path) : FileProg Unit := do
  removeFailedDependencyDownload
  removeFailedDependencyInstallRoot installRoot

/-! ## Installation -/

/-- `install_downloaded_payload` of one payload. -/
def installPayload (request : ResolvedDependencyRequest) (payload : Payload)
    (faults : List (Option CallFault)) : EnsureProg Unit := do
  runFiles faults (Archive.installDownloadedPayload payload request.archiveType request.installRoot
    request.exports)
  EnsureProg.record ⟨request, payload⟩

def installBundledDependency (request : ResolvedDependencyRequest) (answers : EnsureAnswers) :
    EnsureProg Unit := do
  let payload ← MonadExcept.ofExcept answers.first.download
  tryCatch (installPayload request payload answers.first.faults) fun error => do
    runFiles answers.cleanup (removeFailedDependencyInstallRoot request.installRoot)
    throw error
  match ← runFiles answers.detection (detectDependency request) with
  | .present => pure ()
  | .missing => throw ("bundled dependency '" ++ request.name ++
      "' was installed but exported files are still missing")

/-- The download and installation of a remote payload, with one retry behind a clean-up. -/
def installRemoteDependency (request : ResolvedDependencyRequest) (answers : EnsureAnswers) :
    EnsureProg Unit := do
  let payload ← MonadExcept.ofExcept answers.first.download
  tryCatch (installPayload request payload answers.first.faults) fun firstError => do
    runFiles answers.cleanup (cleanupFailedDependencyInstallAttempt request.installRoot)
    let redownloaded ← MonadExcept.ofExcept answers.second.download
    -- What a failed retry wrote stays.
    tryCatch (installPayload request redownloaded answers.second.faults) fun retryError =>
      throw (firstError ++ ". Automatic redownload and reinstall also failed: " ++ retryError)
  match ← runFiles answers.detection (detectDependency request) with
  | .present => pure ()
  | .missing => throw ("dependency '" ++ request.name ++
      "' was downloaded but exported files are still missing")

def bundled (job : DependencyJob) : Bool := job.spec.source.sourceType = .bundled

/-- What is known before anything is installed. -/
inductive Prepared where
  | present (request : ResolvedDependencyRequest)
  | missing (request : ResolvedDependencyRequest)

/-- `install_dependency` up to the first write. -/
def prepareDependency (config : DependencyManagerConfig) (digest : Digest) (job : DependencyJob)
    (answers : EnsureAnswers) : EnsureProg Prepared := do
  match ← runFiles answers.probe (findExistingLocalDependencyRequest config digest job) with
  | some request => return .present request
  | none =>
    if job.spec.scope = .host then
      throw ("host dependency '" ++ job.spec.name ++ "' is missing")
    else if config.allowNetworkDownload = false ∧ bundled job = false then
      throw ("dependency '" ++ job.spec.name ++ "' is missing and network download is disabled")
    else
      let request ← MonadExcept.ofExcept (resolveDependencyRequest config digest job answers.source)
      match ← runFiles answers.recheck (detectDependency request) with
      | .present => return .present request
      | .missing => return .missing request

def installDependency (config : DependencyManagerConfig) (digest : Digest) (job : DependencyJob)
    (answers : EnsureAnswers) : EnsureProg ResolvedDependencyRequest := do
  match ← prepareDependency config digest job answers with
  | .present request => return request
  | .missing request =>
    if bundled job then installBundledDependency request answers
    else installRemoteDependency request answers
    return request

/-! ## Histories -/

/-- One ensure attempt, whatever it returns. -/
def DependencyWorld.attempt (config : DependencyManagerConfig) (digest : Digest) (w : DependencyWorld)
    (attempt : DependencyJob × EnsureAnswers) : DependencyWorld :=
  match installDependency config digest attempt.1 attempt.2 w with
  | .ok _ w' => w'
  | .error _ w' => w'

def DependencyWorld.history (config : DependencyManagerConfig) (digest : Digest) (w : DependencyWorld)
    (attempts : List (DependencyJob × EnsureAnswers)) : DependencyWorld :=
  attempts.foldl (DependencyWorld.attempt config digest) w

/-! ## Completeness -/

def MemberBytes (payload : Payload) (declared : String) (bytes : List UInt8) :
    DependencyArchiveType → Prop
  | .raw => bytes = payload.bytes
  | .zip => ∃ entries, ∃ m : Member, payload.zip = .ok entries ∧ Archive.zipEntry entries declared = some m ∧
      bytes = m.bytes
  | .tarGz => ∃ members : List Member, ∃ m : Member, payload.tar = members.map .ok ∧ m ∈ members ∧
      m.matchesExport declared = true ∧ bytes = m.bytes

def Installation.Supplies (installation : Installation) (archivePath : String) (target : Path)
    (bytes : List UInt8) : Prop :=
  (∃ spec ∈ installation.request.exports, spec.archivePath = archivePath ∧
    resolveDependencyExportTarget installation.request.installRoot spec.targetPath = .ok target) ∧
  MemberBytes installation.payload archivePath bytes installation.request.archiveType

/-- Every declared export holds the full bytes of its own member, from an installation that ended
well. -/
def DependencyWorld.Complete (w : DependencyWorld) (request : ResolvedDependencyRequest) : Prop :=
  ∀ spec ∈ request.exports, ∃ target,
    resolveDependencyExportTarget request.installRoot spec.targetPath = .ok target ∧
      ∃ installation ∈ w.installed,
        installation.Supplies spec.archivePath target (w.store.contents target)

/-- A path in the area that only the manager writes. -/
def Managed (config : DependencyManagerConfig) (p : Path) : Prop :=
  ∃ kind, config.installRootForKind kind .skill <+: p

/-- The clean-up that follows a failed first installation. -/
def cleanupOf (job : DependencyJob) (installRoot : Path) : FileProg Unit :=
  if bundled job then removeFailedDependencyInstallRoot installRoot
  else cleanupFailedDependencyInstallAttempt installRoot

/-- The attempt leaves no failed installation behind: when the first installation fails its clean-up
does not, and the installation after a second download does not fail. -/
structure Tidy (config : DependencyManagerConfig) (digest : Digest) (w : DependencyWorld)
    (job : DependencyJob) (answers : EnsureAnswers) : Prop where
  cleanup : ∀ request w₀ payload error w₁,
    prepareDependency config digest job answers w = .ok (.missing request) w₀ →
    answers.first.download = .ok payload →
    installPayload request payload answers.first.faults w₀ = .error error w₁ →
    ∃ w₂, runFiles answers.cleanup (cleanupOf job request.installRoot) w₁ = .ok () w₂
  retry : bundled job = false → ∀ request w₀ payload error w₁ w₂ redownloaded,
    prepareDependency config digest job answers w = .ok (.missing request) w₀ →
    answers.first.download = .ok payload →
    installPayload request payload answers.first.faults w₀ = .error error w₁ →
    runFiles answers.cleanup (cleanupOf job request.installRoot) w₁ = .ok () w₂ →
    answers.second.download = .ok redownloaded →
    ∃ w₃, installPayload request redownloaded answers.second.faults w₂ = .ok () w₃

/-- Every attempt of the history is tidy in the world in which it is made. -/
def TidyHistory (config : DependencyManagerConfig) (digest : Digest) (w : DependencyWorld)
    (attempts : List (DependencyJob × EnsureAnswers)) : Prop :=
  ∀ before attempt after, attempts = before ++ attempt :: after →
    Tidy config digest (w.history config digest before) attempt.1 attempt.2

/-- An export of `other` that is written to a target of `request` is the member declared there. -/
def SameMembers (request other : ResolvedDependencyRequest) : Prop :=
  ∀ spec ∈ request.exports, ∀ export_ ∈ other.exports, ∀ target,
    resolveDependencyExportTarget request.installRoot spec.targetPath = .ok target →
    resolveDependencyExportTarget other.installRoot export_.targetPath = .ok target →
    export_.archivePath = spec.archivePath

/-- Whatever the history goes on to install writes the targets of `request` from their own members. -/
def Settled (config : DependencyManagerConfig) (digest : Digest) (w : DependencyWorld)
    (attempts : List (DependencyJob × EnsureAnswers)) (request : ResolvedDependencyRequest) : Prop :=
  ∀ before attempt after, attempts = before ++ attempt :: after → ∀ other w₀,
    prepareDependency config digest attempt.1 attempt.2 (w.history config digest before) =
      .ok (.missing other) w₀ → SameMembers request other

section
variable {config : DependencyManagerConfig} {digest : Digest} {w₀ w : DependencyWorld}
  {request : ResolvedDependencyRequest} {payload : Payload} {faults : List (Option CallFault)}
  {s₀ s : FileStore} {root p : Path} {job : DependencyJob} {answers : EnsureAnswers}

/-! ## Parts of an attempt -/

theorem triple_runFiles {α : Type} {x : FileProg α} {Q : α → FileStore → Prop} {E : FileStore → Prop}
    (h : Triple (fun f => f.store = w₀.store) x (fun a f => Q a f.store) fun f => E f.store) :
    Triple (· = w₀) (runFiles faults x) (fun a w => Q a w.store ∧ w.installed = w₀.installed)
      fun w => E w.store ∧ w.installed = w₀.installed := by
  intro w hw
  subst hw
  have hrun := h ⟨w.store, faults⟩ rfl
  unfold runFiles
  cases hx : x ⟨w.store, faults⟩ with
  | ok a f | error e f =>
    rw [hx] at hrun
    exact ⟨hrun, rfl⟩

/-- A program that only looks at the files leaves the world as it was. -/
theorem triple_runFiles_check {α : Type} {d : String → String} {f : FileStore → Except String α} :
    Triple (· = w₀) (runFiles faults (FileProg.probe d >>= fun _ => FileProg.check f))
      (fun _ w => w = w₀) fun w => w = w₀ := by
  have hcheck : Triple (fun g : FileWorld => g.store = w₀.store)
      (FileProg.probe d >>= fun _ => FileProg.check f) (fun _ g => g.store = w₀.store)
      fun g => g.store = w₀.store := by
    apply (FileProg.triple_probe (P := (· = w₀.store))).bind
    intro _
    exact FileProg.triple_check (fun _ _ hg _ => hg) fun _ _ hg _ => hg
  exact (triple_runFiles (Q := fun _ s => s = w₀.store) (E := (· = w₀.store)) hcheck).mono (fun _ hw => hw)
    (fun _ _ hw => DependencyWorld.ext hw.1 hw.2) fun _ hw => DependencyWorld.ext hw.1 hw.2

theorem triple_ofExcept {x : Except String α} :
    Triple (· = w₀) (MonadExcept.ofExcept x : EnsureProg α) (fun a w => x = .ok a ∧ w = w₀)
      fun w => w = w₀ := by
  cases x with
  | ok a => exact .pure fun w hw => ⟨rfl, hw⟩
  | error e => exact .throw fun w hw => hw

/-- Nothing is written before the dependency is known to be missing. -/
theorem triple_prepareDependency :
    Triple (· = w₀) (prepareDependency config digest job answers) (fun _ w => w = w₀)
      fun w => w = w₀ := by
  apply Triple.bind triple_runFiles_check
  intro existing
  cases existing with
  | some request => exact .pure fun _ hw => hw
  | none =>
    dsimp only
    split
    · exact .throw fun _ hw => hw
    · split
      · exact .throw fun _ hw => hw
      · apply triple_ofExcept.bind
        intro request
        apply Triple.of_and
        intro _
        apply Triple.bind triple_runFiles_check
        intro status
        cases status with
        | present | missing => exact .pure fun _ hw => hw

theorem supplies_of_unpacked
    (hresolved : resolveDependencyExportTargets request.installRoot request.exports = .ok resolved)
    (h : Unpacked payload resolved request.archiveType ws) (hw : (p, bytes) ∈ ws) :
    ∃ archivePath, (⟨request, payload⟩ : Installation).Supplies archivePath p bytes := by
  have hsupplies : ∀ export_ ∈ resolved, export_.targetPath = p →
      MemberBytes payload export_.spec.archivePath bytes request.archiveType →
      ∃ archivePath, (⟨request, payload⟩ : Installation).Supplies archivePath p bytes := by
    intro export_ hmem htarget hbytes
    obtain ⟨hspec, htarget'⟩ := Archive.resolveTargets_mem hresolved hmem
    exact ⟨_, ⟨export_.spec, hspec, rfl, htarget ▸ htarget'⟩, hbytes⟩
  generalize htype : request.archiveType = archiveType at h hsupplies
  cases h with
  | raw hone =>
    cases mem_singleton.1 hw
    exact hsupplies _ (hone ▸ mem_cons_self) rfl rfl
  | zip hzip hall =>
    obtain ⟨export_, hmem, heq⟩ := mem_map.1 hw
    cases heq
    obtain ⟨entry, hentry⟩ := Option.isSome_iff_exists.1 (hall export_ hmem)
    refine hsupplies export_ hmem rfl ⟨_, entry, hzip, hentry, ?_⟩
    rw [hentry]
    rfl
  | tarGz htar hall =>
    obtain ⟨member, hmember, hw⟩ := mem_flatMap.1 hw
    obtain ⟨export_, hmem, heq⟩ := mem_map.1 hw
    cases heq
    obtain ⟨hmem, hmatch⟩ := mem_filter.1 hmem
    exact hsupplies export_ hmem rfl ⟨_, member, htar, hmember, hmatch, rfl⟩

/-- After an installation that ended well each file is supplied by it or is what it was. -/
theorem triple_installPayload :
    Triple (· = w₀) (installPayload request payload faults)
      (fun _ w => w.installed = w₀.installed ++ [⟨request, payload⟩] ∧
        ∀ p, w.store.IsFile p →
          (∃ archivePath,
            (⟨request, payload⟩ : Installation).Supplies archivePath p (w.store.contents p)) ∨
            w₀.store.IsFile p ∧ w.store.contents p = w₀.store.contents p)
      fun w => (∃ ts, (∀ t ∈ ts, request.installRoot <+: t) ∧ w₀.store.Touched ts w.store) ∧
        w.installed = w₀.installed := by
  unfold installPayload
  apply (triple_runFiles
    (Q := fun _ s => ∃ resolved s₁ ws, Archive.Admitted w₀.store request.installRoot request.exports resolved ∧
      w₀.store.createDirAll request.installRoot = some s₁ ∧
        Unpacked payload resolved request.archiveType ws ∧ s₁.Wrote ws s)
    (E := fun s => ∃ ts, (∀ t ∈ ts, request.installRoot <+: t) ∧ w₀.store.Touched ts s)
    Archive.triple_install).bind
  intro _ w ⟨⟨resolved, s₁, ws, hadmitted, hroot, hunpacked, hwrote⟩, hinstalled⟩
  refine ⟨by rw [hinstalled], fun p hp => ?_⟩
  change w.store.IsFile p at hp
  have hwrote' := hwrote.of_createDirAll hroot
  by_cases hwritten : ∃ write ∈ ws, write.1 = p
  · exact .inl (supplies_of_unpacked hadmitted.resolves hunpacked (hwrote.mem_of_written hwritten))
  · have htouched : w₀.store.Touched (ws.map (·.1)) w.store :=
      hwrote'.touched fun write hmem => mem_map_of_mem hmem
    obtain ⟨hcontents, hfile⟩ := htouched.other (p := p) fun hmem => hwritten (by
      obtain ⟨write, hwrite, rfl⟩ := mem_map.1 hmem
      exact ⟨write, hwrite, rfl⟩)
    exact .inr ⟨hfile.1 hp, hcontents⟩

/-- Nothing is left below the root, and the other files are what they were. -/
def Removed (root : Path) (s₀ s : FileStore) : Prop :=
  (∀ p, root <+: p → ¬ s.IsFile p) ∧
    ∀ p, ¬ root <+: p → s.contents p = s₀.contents p ∧ (s.IsFile p → s₀.IsFile p)

theorem triple_removeRoot :
    Triple (fun f => f.store = s₀) (removeFailedDependencyInstallRoot root)
      (fun _ f => Removed root s₀ f.store) fun _ => True := by
  have hcheck : Triple (fun f : FileWorld => f.store = s₀) (failedDependencyInstallRootIsDirectory root)
      (fun isDirectory f => (isDirectory = false → s₀.tree.lookup root = none) ∧ f.store = s₀)
      fun _ => True := by
    apply Triple.bind (Q := fun _ f => f.store = s₀)
    · exact (FileProg.triple_probe (P := (· = s₀))).mono (fun _ hf => hf) (fun _ _ hf => hf)
        fun _ _ => trivial
    · intro _
      refine FileProg.triple_check (fun f a hf h => ⟨fun hfalse => ?_, hf⟩) fun _ _ _ _ => trivial
      rw [hf] at h
      cases hlookup : s₀.tree.lookup root with
      | none => rfl
      | some entry =>
        rw [hlookup, hfalse] at h
        cases hdir : entry.isDir <;> simp [hdir] at h
  apply hcheck.bind
  rintro (_ | _)
  · apply Triple.of_and
    intro hnone
    refine .pure fun f hf => ⟨fun p hp hfile => ?_, fun p hp => by rw [hf]; exact ⟨rfl, id⟩⟩
    -- Nothing lies below a path that is not there.
    obtain ⟨mode, hmode⟩ := hfile
    rw [hf] at hmode
    rcases eq_or_ne root p with rfl | hne
    · cases (hnone rfl).symm.trans hmode
    · obtain ⟨e, he, -⟩ := FileTree.isDir_of_below (by rw [hmode]; rfl) hp hne
      cases (hnone rfl).symm.trans he
  · apply Triple.of_and
    intro _
    rw [if_pos rfl]
    refine FileProg.triple_removeDirAll.mono (fun _ hf => hf) (fun _ f hf => ?_) fun _ hf => hf
    rw [hf]
    constructor
    · intro p hp ⟨mode, hmode⟩
      rw [removeDirAll, FileTree.lookup_removeDirAll, if_pos hp] at hmode
      cases hmode
    · intro p hp
      refine ⟨rfl, fun ⟨mode, hmode⟩ => ⟨mode, ?_⟩⟩
      rwa [removeDirAll, FileTree.lookup_removeDirAll, if_neg hp] at hmode

theorem triple_cleanupOf :
    Triple (fun f => f.store = s₀) (cleanupOf job root) (fun _ f => Removed root s₀ f.store)
      fun _ => True := by
  unfold cleanupOf
  split
  · exact triple_removeRoot
  · apply Triple.bind (Q := fun _ f => f.store = s₀)
    · exact (FileProg.triple_probe (P := (· = s₀))).mono (fun _ hf => hf) (fun _ _ hf => hf)
        fun _ _ => trivial
    · intro _
      exact triple_removeRoot

end

end LuaSkills.Dependency.OnDisk
