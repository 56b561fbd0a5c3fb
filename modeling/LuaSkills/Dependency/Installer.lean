import Mathlib.Data.List.Dedup
import LuaSkills.Data.FileTree
import LuaSkills.Dependency.Spec

/-!
# Installing dependencies

`ensure_skill_dependencies` over a tree of files. A dependency is ready when every exported file of one
of its accepted local copies is there; otherwise its request is resolved and its payload unpacked below
the resolved root. Payloads and remote sources are answers of the environment.
-/

namespace LuaSkills.Dependency

open SkillConfig (trim validateLuaskillsIdentifier)

def renderDependencyManagerPath (path : Path) : String := "/" ++ String.intercalate "/" path

/-! ## Exported files -/

def hasWindowsDrivePrefix (text : String) : Bool :=
  match text.toList with
  | c :: ':' :: _ => c.isAlpha
  | _ => false

def resolveDependencyExportTarget (root : Path) (relativeTarget : String) : Except String Path :=
  let portableTarget := Text.replace relativeTarget "\\" "/"
  if portableTarget = "" || Text.startsWith portableTarget "/" || hasWindowsDrivePrefix portableTarget then
    .error ("Dependency export target '" ++ relativeTarget ++
      "' must be a non-empty relative path without a root or drive prefix")
  else if (Text.split '/' portableTarget).any fun part => part = "" || part = "." || part = ".." then
    .error ("Dependency export target '" ++ relativeTarget ++
      "' must contain only non-empty normal path components")
  else .ok (root ++ Text.split '/' portableTarget)

theorem resolveTarget_eq_ok (h : resolveDependencyExportTarget root relativeTarget = .ok target) :
    ∃ names, names ≠ [] ∧ target = root ++ names ∧
      ∀ name ∈ names, name ≠ "" ∧ name ≠ "." ∧ name ≠ ".." := by
  unfold resolveDependencyExportTarget at h
  simp only at h
  split at h
  · cases h
  · split at h
    · cases h
    next hnames =>
      cases h
      refine ⟨_, ?_, rfl, ?_⟩
      · unfold Text.split
        rw [ne_eq, List.map_eq_nil_iff]
        cases (Text.replace relativeTarget "\\" "/").toList with
        | nil => simp [Text.splitChars]
        | cons c cs =>
          rw [Text.splitChars]
          split
          · simp
          · split <;> simp
      · intro name hname
        have hno := List.any_eq_false.1 (Bool.not_eq_true _ ▸ hnames) name hname
        simpa [not_or, and_assoc] using hno

def dependencyExportTargetIsReady (tree : FileTree) (targetPath : Path) (executable : Bool) : Bool :=
  match tree.lookup targetPath with
  | some (.file mode) => !executable || mode
  | _ => false

inductive DependencyDetectionStatus where
  | present
  | missing
deriving DecidableEq

def detectExports (tree : FileTree) (root : Path) :
    List DependencyExportSpec → Except String DependencyDetectionStatus
  | [] => .ok .present
  | spec :: rest =>
    match resolveDependencyExportTarget root spec.targetPath with
    | .error error => .error error
    | .ok targetPath =>
      if dependencyExportTargetIsReady tree targetPath spec.executable then detectExports tree root rest
      else .ok .missing

def detectDependency (tree : FileTree) (request : ResolvedDependencyRequest) :
    Except String DependencyDetectionStatus :=
  if request.exports = [] then
    .error ("dependency '" ++ request.name ++ "' must declare at least one export")
  else detectExports tree request.installRoot request.exports

/-! ## Local copies -/

def localDependencyProbeRequestVariantsForRoot (job : DependencyJob) (version : Option String)
    (installRoot : Path) (package : DependencyPackageSpec) : List ResolvedDependencyRequest :=
  (localDependencyTagCandidates version).map fun tag =>
    { kind := job.kind
      name := job.spec.name
      scope := job.spec.scope
      platformKey := job.platformKey
      downloadUrl := ""
      expectedSha256 := none
      version
      installRoot
      archiveType := package.archiveType
      exports := resolveExportTemplates package.exports version tag }

def localDependencyProbeRequestVariants (config : DependencyManagerConfig) (digest : Digest)
    (job : DependencyJob) (version : Option String) (package : DependencyPackageSpec) :
    List ResolvedDependencyRequest :=
  localDependencyProbeRequestVariantsForRoot job version (job.rootFor config digest version) package

/-- The directory above the versions of a dependency. -/
def DependencyJob.dependencyRoot (job : DependencyJob) (config : DependencyManagerConfig)
    (digest : Digest) : Path :=
  let normalizedName := normalizeDependencyPathComponent digest job.spec.name
  match job.spec.scope with
  | .host => job.root config ++ [normalizedName]
  | .skill => job.root config ++ [job.skillId, normalizedName]

def localUnversionedDependencyProbeRequests (config : DependencyManagerConfig) (digest : Digest)
    (tree : FileTree) (job : DependencyJob) (package : DependencyPackageSpec) :
    List ResolvedDependencyRequest :=
  let dependencyRoot := job.dependencyRoot config digest
  let normalizedPlatform := normalizeDependencyPathComponent digest job.platformKey
  (tree.subdirectories dependencyRoot).flatMap fun versionComponent =>
    let candidateRoot := dependencyRoot ++ [versionComponent, normalizedPlatform]
    if (tree.lookup candidateRoot).any FileEntry.isDir then
      localDependencyProbeRequestVariantsForRoot job (some versionComponent) candidateRoot package
    else []

def localDependencyProbeRequests (config : DependencyManagerConfig) (digest : Digest) (tree : FileTree)
    (job : DependencyJob) (package : DependencyPackageSpec) : List ResolvedDependencyRequest :=
  let requests := (localDependencyVersionCandidates job.spec.version).flatMap fun version =>
    localDependencyProbeRequestVariants config digest job version package
  if job.spec.version = none then
    requests ++ localUnversionedDependencyProbeRequests config digest tree job package
  else requests

/-- The first request whose exports are all there. -/
def firstPresent (tree : FileTree) :
    List ResolvedDependencyRequest → Except String (Option ResolvedDependencyRequest)
  | [] => .ok none
  | request :: rest =>
    match detectDependency tree request with
    | .error error => .error error
    | .ok .present => .ok (some request)
    | .ok .missing => firstPresent tree rest

def findExistingLocalDependencyRequest (config : DependencyManagerConfig) (digest : Digest)
    (tree : FileTree) (job : DependencyJob) : Except String (Option ResolvedDependencyRequest) :=
  match job.package with
  | none => .ok none
  | some package => firstPresent tree (localDependencyProbeRequests config digest tree job package)

/-! ## Payloads -/

/-- What unpacking a payload does: all exported files are written, or it fails after the first
`written` of them. `mode` is the executable bit the payload's member comes with. -/
inductive UnpackAnswer where
  | ok (mode : DependencyExportSpec → Bool)
  | fail (error : String) (written : ℕ) (mode : DependencyExportSpec → Bool)

structure PayloadAnswers where
  download : Except String Unit
  unpack : UnpackAnswer

/-- `validate_dependency_export_target_disk_state` for the components of a target below the root. -/
def validateTargetComponents (tree : FileTree) (current : Path) : List String → Except String Unit
  | [] => .ok ()
  | name :: rest =>
    let path := current ++ [name]
    match tree.lookup path with
    | none => validateTargetComponents tree path rest
    | some (.link _) =>
      .error ("Dependency export target must not traverse or replace a symbolic link: " ++
        renderDependencyManagerPath path)
    | some (.file _) =>
      if rest = [] then .ok ()
      else .error ("Dependency export target parent is not a directory: " ++
        renderDependencyManagerPath path)
    | some .dir =>
      if rest = [] then
        .error ("Dependency export target leaf is not a regular file: " ++
          renderDependencyManagerPath path)
      else validateTargetComponents tree path rest

def writeExport (mode : DependencyExportSpec → Bool) (tree : FileTree)
    (target : DependencyExportSpec × Path) : Option FileTree := do
  let tree ← tree.createDirAll target.2.dropLast
  tree.writeFile target.2 (target.1.executable || mode target.1)

/-- The files written before the first one that cannot be. -/
def writeExports (mode : DependencyExportSpec → Bool) (tree : FileTree) :
    List (DependencyExportSpec × Path) → Except String Unit × FileTree
  | [] => (.ok (), tree)
  | target :: rest =>
    match writeExport mode tree target with
    | none => (.error ("Failed to copy to " ++ renderDependencyManagerPath target.2), tree)
    | some tree => writeExports mode tree rest

def installDownloadedPayload (tree : FileTree) (request : ResolvedDependencyRequest)
    (answer : UnpackAnswer) : Except String Unit × FileTree :=
  let checked : Except String (List (DependencyExportSpec × Path)) := do
    let targets ← request.exports.mapM fun spec => do
      let targetPath ← resolveDependencyExportTarget request.installRoot spec.targetPath
      return (spec, targetPath)
    targets.forM fun target =>
      validateTargetComponents tree request.installRoot (target.2.drop request.installRoot.length)
    return targets
  match checked with
  | .error error => (.error error, tree)
  | .ok targets =>
    match tree.createDirAll request.installRoot with
    | none =>
      (.error ("Failed to create " ++ renderDependencyManagerPath request.installRoot), tree)
    | some tree =>
      match answer with
      | .ok mode => writeExports mode tree targets
      | .fail error written mode => (.error error, (writeExports mode tree (targets.take written)).2)

def removeFailedDependencyInstallRoot (tree : FileTree) (installRoot : Path) :
    Except String Unit × FileTree :=
  match tree.lookup installRoot with
  | none => (.ok (), tree)
  | some entry =>
    if entry.isDir then (.ok (), tree.removeDirAll installRoot)
    else
      (.error ("Failed dependency install root is not a directory before reinstall: " ++
        renderDependencyManagerPath installRoot), tree)

structure InstallAnswers where
  source : SourceAnswers
  first : PayloadAnswers
  second : PayloadAnswers

def installBundledDependency (tree : FileTree) (request : ResolvedDependencyRequest)
    (answer : PayloadAnswers) : Except String Unit × FileTree :=
  match answer.download with
  | .error error => (.error error, tree)
  | .ok () =>
    match installDownloadedPayload tree request answer.unpack with
    | (.ok (), tree) => (.ok (), tree)
    | (.error error, tree) =>
      match removeFailedDependencyInstallRoot tree request.installRoot with
      | (.ok (), tree) => (.error error, tree)
      | (.error removal, tree) => (.error removal, tree)

/-- The download and installation of a remote payload, with one retry behind a clean-up. -/
def installRemoteDependency (tree : FileTree) (request : ResolvedDependencyRequest)
    (answers : InstallAnswers) : Except String Unit × FileTree :=
  match answers.first.download with
  | .error error => (.error error, tree)
  | .ok () =>
    match installDownloadedPayload tree request answers.first.unpack with
    | (.ok (), tree) => (.ok (), tree)
    | (.error firstError, tree) =>
      match removeFailedDependencyInstallRoot tree request.installRoot with
      | (.error error, tree) => (.error error, tree)
      | (.ok (), tree) =>
        match answers.second.download with
        | .error error => (.error error, tree)
        | .ok () =>
          match installDownloadedPayload tree request answers.second.unpack with
          | (.ok (), tree) => (.ok (), tree)
          | (.error retryError, tree) =>
            (.error (firstError ++ ". Automatic redownload and reinstall also failed: " ++ retryError),
              tree)

/-! ## `ensure_skill_dependencies` -/

def installDependency (config : DependencyManagerConfig) (digest : Digest) (tree : FileTree)
    (job : DependencyJob) (answers : InstallAnswers) :
    Except String ResolvedDependencyRequest × FileTree :=
  match findExistingLocalDependencyRequest config digest tree job with
  | .error error => (.error error, tree)
  | .ok (some request) => (.ok request, tree)
  | .ok none =>
    if job.spec.scope = .host then
      (.error ("host dependency '" ++ job.spec.name ++ "' is missing"), tree)
    else if config.allowNetworkDownload = false ∧ job.spec.source.sourceType ≠ .bundled then
      (.error ("dependency '" ++ job.spec.name ++ "' is missing and network download is disabled"), tree)
    else
      match resolveDependencyRequest config digest job answers.source with
      | .error error => (.error error, tree)
      | .ok request =>
        match detectDependency tree request with
        | .error error => (.error error, tree)
        | .ok .present => (.ok request, tree)
        | .ok .missing =>
          let bundled := job.spec.source.sourceType = .bundled
          let installed :=
            if bundled then installBundledDependency tree request answers.first
            else installRemoteDependency tree request answers
          match installed with
          | (.error error, tree) => (.error error, tree)
          | (.ok (), tree) =>
            match detectDependency tree request with
            | .error error => (.error error, tree)
            | .ok .present => (.ok request, tree)
            | .ok .missing =>
              (.error (if bundled then "bundled dependency '" ++ job.spec.name ++
                "' was installed but exported files are still missing"
              else "dependency '" ++ job.spec.name ++
                "' was downloaded but exported files are still missing"), tree)

abbrev Declaration := SkillDependencyKind × DependencySpec

/-- The dependencies in order; a failing one that is optional is left out. -/
def ensureDependencies (config : DependencyManagerConfig) (digest : Digest) (platformKey skillId : String)
    (answers : SkillDependencyKind → DependencySpec → InstallAnswers) (tree : FileTree) :
    List Declaration → Except String (List (Declaration × ResolvedDependencyRequest)) × FileTree
  | [] => (.ok [], tree)
  | (kind, spec) :: rest =>
    match installDependency config digest tree ⟨skillId, kind, spec, platformKey⟩ (answers kind spec) with
    | (.error error, tree) =>
      if spec.required then (.error error, tree)
      else ensureDependencies config digest platformKey skillId answers tree rest
    | (.ok request, tree) =>
      match ensureDependencies config digest platformKey skillId answers tree rest with
      | (.error error, tree) => (.error error, tree)
      | (.ok uses, tree) => (.ok (((kind, spec), request) :: uses), tree)

/-- `ensure_skill_dependencies`: the ready dependencies, each with the request it is ready under. -/
def ensureSkillDependencies (config : DependencyManagerConfig) (digest : Digest)
    (platformKey skillId : String) (manifest : PackageDependencyManifest)
    (answers : SkillDependencyKind → DependencySpec → InstallAnswers) (tree : FileTree) :
    Except String (List (Declaration × ResolvedDependencyRequest)) × FileTree :=
  match validateLuaskillsIdentifier skillId "skill_id" with
  | .error error => (.error error, tree)
  | .ok () =>
    if platformKey = "unknown" then
      (.error "current platform is not supported by LuaSkills dependency manager", tree)
    else ensureDependencies config digest platformKey skillId answers tree manifest.dependencies

/-! ## Clean-up after an update -/

/-- `push_dependency_root_if_applicable` for one declaration. -/
def dependencyRootIfApplicable (config : DependencyManagerConfig) (digest : Digest)
    (job : DependencyJob) : Option Path :=
  if job.spec.scope ≠ .skill ∨ job.package = none then none
  else some (job.rootFor config digest job.spec.version)

/-- `collect_skill_local_dependency_roots`: the roots that the version texts of a manifest name. -/
def collectSkillLocalDependencyRoots (config : DependencyManagerConfig) (digest : Digest)
    (platformKey skillId : String) : Option PackageDependencyManifest → List Path
  | none => []
  | some manifest => (manifest.dependencies.filterMap fun dependency =>
      dependencyRootIfApplicable config digest ⟨skillId, dependency.1, dependency.2, platformKey⟩).dedup

def removeStaleDependencyRoot (tree : FileTree) (staleRoot : Path) : Except String FileTree :=
  match tree.lookup staleRoot with
  | none => .ok tree
  | some entry =>
    if entry.isDir then .ok (tree.removeDirAll staleRoot)
    else
      .error ("Stale dependency root is not a directory before update cleanup: " ++
        renderDependencyManagerPath staleRoot)

def cleanupUpdatedSkillDependencies (config : DependencyManagerConfig) (digest : Digest)
    (platformKey skillId : String) (previousManifest currentManifest : Option PackageDependencyManifest)
    (tree : FileTree) : Except String FileTree := do
  validateLuaskillsIdentifier skillId "skill_id"
  if platformKey = "unknown" then return tree
  let previousRoots :=
    collectSkillLocalDependencyRoots config digest platformKey skillId previousManifest
  let currentRoots := collectSkillLocalDependencyRoots config digest platformKey skillId currentManifest
  (previousRoots.filter (· ∉ currentRoots)).foldlM removeStaleDependencyRoot tree

/-! ## Detection -/

section
open List
variable {tree tree' : FileTree} {request q : ResolvedDependencyRequest} {root : Path}

theorem detectExports_eq_present : detectExports tree root l = .ok .present ↔
      ∀ spec ∈ l, ∃ target, resolveDependencyExportTarget root spec.targetPath = .ok target ∧
        dependencyExportTargetIsReady tree target spec.executable := by
  induction l with
  | nil => simp [detectExports]
  | cons spec l ih =>
    cases htarget : resolveDependencyExportTarget root spec.targetPath with
    | error error => simp [detectExports, htarget]
    | ok target =>
      cases hready : dependencyExportTargetIsReady tree target spec.executable with
      | false => simp [detectExports, htarget, hready]
      | true => simpa [detectExports, htarget, hready] using ih

theorem detectDependency_eq_present :
    detectDependency tree request = .ok .present ↔ request.exports ≠ [] ∧
      ∀ spec ∈ request.exports, ∃ target,
        resolveDependencyExportTarget request.installRoot spec.targetPath = .ok target ∧
          dependencyExportTargetIsReady tree target spec.executable := by
  unfold detectDependency
  split
  next hempty => simp [hempty]
  next hexports => simp [hexports, detectExports_eq_present]

end

end LuaSkills.Dependency
