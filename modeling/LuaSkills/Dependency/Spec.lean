import LuaSkills.Data.SortedMap
import LuaSkills.Data.Text
import LuaSkills.Data.Fallible
import LuaSkills.SkillConfig.Document

/-!
# Dependency declarations

What a dependency manifest declares, the version spellings the installer accepts for a local copy, the
directory a dependency is installed in, and the request that a declaration resolves to. The SHA-256
digest and the answers of remote sources are parameters.
-/

namespace LuaSkills.Dependency

open SkillConfig (trim)

/-! ## Declarations -/

inductive SkillDependencyKind where
  | tool
  | lua
  | ffi
deriving DecidableEq

inductive DependencyScope where
  | skill
  | host
deriving DecidableEq

inductive DependencySourceType where
  | githubRelease
  | url
  | skillList
  | bundled
deriving DecidableEq

inductive DependencyArchiveType where
  | zip
  | tarGz
  | raw
deriving DecidableEq

structure DependencyExportSpec where
  archivePath : String
  targetPath : String
  executable : Bool
deriving DecidableEq

structure DependencyPackageSpec where
  archiveType : DependencyArchiveType
  assetName : Option String
  url : Option String
  path : Option String
  sha256 : Option String
  exports : List DependencyExportSpec
deriving DecidableEq

structure GithubReleaseSourceSpec where
  repo : String
  tagApi : Option String
deriving DecidableEq

structure SkillListSourceSpec where
  url : String
  package : String
deriving DecidableEq

structure DependencySourceSpec where
  sourceType : DependencySourceType
  github : Option GithubReleaseSourceSpec
  skilllist : Option SkillListSourceSpec
deriving DecidableEq

/-- The one shape of tool, Lua and FFI dependencies. -/
structure DependencySpec where
  name : String
  version : Option String
  required : Bool
  scope : DependencyScope
  source : DependencySourceSpec
  packages : SortedMap String DependencyPackageSpec

def DependencySpec.packageForPlatform (spec : DependencySpec) (platformKey : String) :
    Option DependencyPackageSpec := spec.packages.lookup platformKey

structure PackageDependencyManifest where
  toolDependencies : List DependencySpec
  luaDependencies : List DependencySpec
  ffiDependencies : List DependencySpec

/-- The declarations in the order in which they are installed. -/
def PackageDependencyManifest.dependencies (manifest : PackageDependencyManifest) :
    List (SkillDependencyKind × DependencySpec) :=
  manifest.toolDependencies.map (.tool, ·) ++ manifest.luaDependencies.map (.lua, ·) ++
    manifest.ffiDependencies.map (.ffi, ·)

structure SkillListPackageManifest where
  packages : SortedMap String DependencyPackageSpec

structure SkillListIndexFile where
  packages : SortedMap String SkillListPackageManifest

/-! ## Install roots -/

/-- A path as its components. -/
abbrev Path := List String

structure DependencyManagerConfig where
  toolRoot : Path
  hostToolRoot : Path
  luaRoot : Path
  hostLuaRoot : Path
  ffiRoot : Path
  hostFfiRoot : Path
  downloadCacheRoot : Path
  allowNetworkDownload : Bool
  githubBaseUrl : Option String

def DependencyManagerConfig.installRootForKind (config : DependencyManagerConfig) :
    SkillDependencyKind → DependencyScope → Path
  | .tool, .host => config.hostToolRoot
  | .tool, .skill => config.toolRoot
  | .lua, .host => config.hostLuaRoot
  | .lua, .skill => config.luaRoot
  | .ffi, .host => config.hostFfiRoot
  | .ffi, .skill => config.ffiRoot

/-- The lowercase hexadecimal SHA-256 digest. -/
abbrev Digest := List UInt8 → String

def utf8 (text : String) : List UInt8 := text.toUTF8.data.toList

def dependencyPathComponentIsWindowsReserved (stem : String) : Bool :=
  let upper := Text.toAsciiUppercase stem
  ["CON", "PRN", "AUX", "NUL"].contains upper ||
    match upper.toList with
    | [a, b, c, n] =>
      (String.ofList [a, b, c] = "COM" || String.ofList [a, b, c] = "LPT") && '1' ≤ n && n ≤ '9'
    | _ => false

def dependencyPathComponentIsPortable (raw : String) : Bool :=
  if raw = "" || raw = "." || raw = ".." || Text.endsWith raw "." ||
      !raw.toList.all fun c => c.isAlphanum || c = '-' || c = '_' || c = '.' then false
  else !dependencyPathComponentIsWindowsReserved (((Text.split '.' raw).head?).getD raw)

def normalizeDependencyPathComponent (digest : Digest) (raw : String) : String :=
  if dependencyPathComponentIsPortable raw then raw else "sha256-" ++ digest (utf8 raw)

def buildDependencyInstallRoot (digest : Digest) (root : Path) (scope : DependencyScope)
    (skillId dependencyName : String) (version : Option String) (platformKey : String) : Path :=
  let normalizedVersion := normalizeDependencyPathComponent digest (version.getD "unversioned")
  let normalizedName := normalizeDependencyPathComponent digest dependencyName
  let normalizedPlatform := normalizeDependencyPathComponent digest platformKey
  match scope with
  | .host => root ++ [normalizedName, normalizedVersion, normalizedPlatform]
  | .skill => root ++ [skillId, normalizedName, normalizedVersion, normalizedPlatform]

/-! ## Version spellings -/

def pushUniqueOptionalCandidate (candidates : List (Option String)) (candidate : Option String) :
    List (Option String) :=
  if candidates.contains candidate then candidates else candidates ++ [candidate]

def localDependencyVersionCandidates : Option String → List (Option String)
  | none => [none]
  | some rawVersion =>
    let trimmedVersion := trim rawVersion
    let normalizedVersion := Text.trimStartMatches 'v' trimmedVersion
    let candidates := pushUniqueOptionalCandidate [] (some trimmedVersion)
    if normalizedVersion ≠ trimmedVersion then
      pushUniqueOptionalCandidate candidates (some normalizedVersion)
    else candidates

def localDependencyTagCandidates : Option String → List (Option String)
  | none => [none]
  | some rawVersion =>
    let trimmedVersion := trim rawVersion
    let normalizedVersion := Text.trimStartMatches 'v' trimmedVersion
    let candidates := localDependencyVersionCandidates (some rawVersion)
    if normalizedVersion ≠ "" then
      pushUniqueOptionalCandidate candidates (some ("v" ++ normalizedVersion))
    else candidates

def normalizeReleaseVersion (expectedVersion tagName : String) : String :=
  let trimmedExpected := trim expectedVersion
  if trimmedExpected ≠ "" then Text.trimStartMatches 'v' trimmedExpected
  else Text.trimStartMatches 'v' (trim tagName)

def resolveExportTemplateField (raw : String) (version tag : Option String) : String :=
  let value := version.elim raw fun version => Text.replace raw "\x7bversion\x7d" version
  tag.elim value fun tag => Text.replace value "\x7btag\x7d" tag

def resolveExportTemplates (exports : List DependencyExportSpec) (version tag : Option String) :
    List DependencyExportSpec :=
  exports.map fun export_ =>
    { export_ with
      archivePath := resolveExportTemplateField export_.archivePath version tag
      targetPath := resolveExportTemplateField export_.targetPath version tag }

/-! ## Releases -/

structure GithubReleaseAssetRecord where
  name : String
  browserDownloadUrl : String
  digest : Option String

def GithubReleaseAssetRecord.sha256Digest (asset : GithubReleaseAssetRecord) : Option String := do
  let hex ← Text.withoutStart (trim (← asset.digest)) "sha256:"
  if Text.byteLength hex = 64 ∧ hex.toList.all Text.isAsciiHexdigit then
    some (Text.toAsciiLowercase hex)
  else none

structure GithubReleaseApiResponse where
  tagName : String
  assets : List GithubReleaseAssetRecord

structure ResolvedGithubReleaseAsset where
  tagName : String
  version : String
  assetName : String
  downloadUrl : String
  sha256 : Option String

/-- `str::trim_start_matches` of a text: every leading copy of `pat` goes. -/
def trimStartCopies (pat : String) : ℕ → String → String
  | 0, text => text
  | n + 1, text => (Text.withoutStart text pat).elim text (trimStartCopies pat n)

def rewriteGithubDownloadUrl (downloadUrl : String) (githubBaseUrl : Option String) : String :=
  match (githubBaseUrl.map trim).filter (· ≠ "") with
  | none => downloadUrl
  | some baseUrl =>
    let normalizedBase := Text.trimEndMatches '/' baseUrl
    let rest := fun site => normalizedBase ++ "/" ++ trimStartCopies site downloadUrl.length downloadUrl
    if Text.startsWith downloadUrl "https://github.com/" then rest "https://github.com/"
    else if Text.startsWith downloadUrl "http://github.com/" then rest "http://github.com/"
    else downloadUrl

def resolveGithubReleaseAsset (githubBaseUrl : Option String) (release : GithubReleaseApiResponse)
    (assetNameTemplate : String) (expectedVersion : Option String) :
    Except String ResolvedGithubReleaseAsset := do
  let normalizedVersion :=
    normalizeReleaseVersion (expectedVersion.getD release.tagName) release.tagName
  let expectedAssetName :=
    Text.replace (Text.replace assetNameTemplate "\x7bversion\x7d" normalizedVersion)
      "\x7btag\x7d" release.tagName
  let asset ← okOr (release.assets.find? (·.name = expectedAssetName))
    ("GitHub release " ++ release.tagName ++ " does not contain asset '" ++ expectedAssetName ++ "'")
  return {
    tagName := release.tagName
    version := normalizedVersion
    assetName := asset.name
    downloadUrl := rewriteGithubDownloadUrl asset.browserDownloadUrl githubBaseUrl
    sha256 := asset.sha256Digest }

/-! ## Resolution -/

structure ResolvedDependencyRequest where
  kind : SkillDependencyKind
  name : String
  scope : DependencyScope
  platformKey : String
  downloadUrl : String
  expectedSha256 : Option String
  version : Option String
  installRoot : Path
  archiveType : DependencyArchiveType
  exports : List DependencyExportSpec
deriving DecidableEq

/-- What the sources outside the manifest answer while one dependency is resolved: the skill list's
index, the release that the GitHub API reports, and the file of a bundled payload. -/
structure SourceAnswers where
  index : Except String SkillListIndexFile
  release : Except String GithubReleaseApiResponse
  bundledPath : Except String String

/-- The installation of one dependency: the parameters that `ensure_skill_dependencies` passes down. -/
structure DependencyJob where
  skillId : String
  kind : SkillDependencyKind
  spec : DependencySpec
  platformKey : String

namespace DependencyJob

def package (job : DependencyJob) : Option DependencyPackageSpec :=
  job.spec.packageForPlatform job.platformKey

def root (job : DependencyJob) (config : DependencyManagerConfig) : Path :=
  config.installRootForKind job.kind job.spec.scope

def rootFor (job : DependencyJob) (config : DependencyManagerConfig) (digest : Digest)
    (version : Option String) : Path :=
  buildDependencyInstallRoot digest (job.root config) job.spec.scope job.skillId job.spec.name version
    job.platformKey

end DependencyJob

def resolvePackage (job : DependencyJob) (answers : SourceAnswers) :
    Except String DependencyPackageSpec :=
  match job.spec.source.sourceType with
  | .githubRelease | .url | .bundled =>
    okOr job.package
      ("dependency '" ++ job.spec.name ++ "' does not declare package metadata for platform '" ++
        job.platformKey ++ "'")
  | .skillList => do
    let skilllist ← okOr job.spec.source.skilllist
      ("dependency '" ++ job.spec.name ++ "' declares skilllist source but misses skilllist config")
    let indexFile ← answers.index
    let packageManifest ← okOr (indexFile.packages.lookup skilllist.package)
      ("dependency '" ++ job.spec.name ++ "' cannot find package '" ++ skilllist.package ++
        "' in skilllist")
    okOr (packageManifest.packages.lookup job.platformKey)
      ("dependency '" ++ job.spec.name ++ "' skilllist package '" ++ skilllist.package ++
        "' does not support platform '" ++ job.platformKey ++ "'")

/-- The locator of a resolved dependency with the release's own data. -/
structure ResolvedLocator where
  downloadUrl : String
  version : Option String
  tagName : Option String
  sha256 : Option String

def resolveLocator (config : DependencyManagerConfig) (job : DependencyJob) (answers : SourceAnswers)
    (package : DependencyPackageSpec) : Except String ResolvedLocator :=
  match job.spec.source.sourceType with
  | .githubRelease => do
    refuseIf (job.spec.source.github = none)
      ("dependency '" ++ job.spec.name ++ "' declares github_release source but misses github config")
    let assetName ← okOr package.assetName
      ("dependency '" ++ job.spec.name ++ "' github package for platform '" ++ job.platformKey ++
        "' must declare asset_name")
    let release ← answers.release
    let asset ← resolveGithubReleaseAsset config.githubBaseUrl release assetName job.spec.version
    return ⟨asset.downloadUrl, some asset.version, some asset.tagName, asset.sha256⟩
  | .url | .skillList => do
    let url ← okOr package.url
      ("dependency '" ++ job.spec.name ++ "' platform '" ++ job.platformKey ++ "' must declare url")
    return ⟨url, job.spec.version, none, none⟩
  | .bundled => do
    refuseIf (package.path = none)
      ("dependency '" ++ job.spec.name ++ "' bundled package for platform '" ++ job.platformKey ++
        "' must declare path")
    let payloadPath ← answers.bundledPath
    return ⟨payloadPath, job.spec.version, none, none⟩

/-- A digest that the skill declares has to agree with the one that the release reports. -/
def resolveExpectedSha256 (job : DependencyJob) (declared reported : Option String) :
    Except String (Option String) :=
  match declared with
  | none => .ok reported
  | some declared =>
    let declared := Text.toAsciiLowercase (trim declared)
    match reported with
    | some reported =>
      if reported ≠ declared then
        .error ("dependency '" ++ job.spec.name ++ "' platform '" ++ job.platformKey ++
          "' declares sha256 " ++ declared ++ " but the release reports " ++ reported)
      else .ok (some declared)
    | none => .ok (some declared)

def resolveDependencyRequest (config : DependencyManagerConfig) (digest : Digest)
    (job : DependencyJob) (answers : SourceAnswers) : Except String ResolvedDependencyRequest := do
  let package ← resolvePackage job answers
  let locator ← resolveLocator config job answers package
  let expectedSha256 ← resolveExpectedSha256 job package.sha256 locator.sha256
  return {
    kind := job.kind
    name := job.spec.name
    scope := job.spec.scope
    platformKey := job.platformKey
    downloadUrl := locator.downloadUrl
    expectedSha256
    version := locator.version
    installRoot := job.rootFor config digest locator.version
    archiveType := package.archiveType
    exports := resolveExportTemplates package.exports locator.version locator.tagName }

end LuaSkills.Dependency
