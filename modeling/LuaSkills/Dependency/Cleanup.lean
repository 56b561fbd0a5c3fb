import Mathlib.Data.List.Find
import LuaSkills.Dependency.Installer

/-!
# Which dependency roots an update removes

The installer decides where a dependency lives: under one of the accepted spellings of its version, in
any version directory when it declares none, or under the version of the resolved release. The clean-up
after an update recomputes directories from the version texts of the two manifests. The two agree
exactly when the installer's search goes on without the directories that only the previous texts name,
and every abandoned copy lies in one of these.
-/

namespace LuaSkills.Dependency

open Function List

section
variable {tree tree' after : FileTree} {request q : ResolvedDependencyRequest} {root p : Path}
  {config : DependencyManagerConfig} {digest : Digest} {job : DependencyJob}
  {package : DependencyPackageSpec}

/-! ## Where copies lie -/

/-- The request is about a copy of the dependency in some version directory. -/
def Placed (config : DependencyManagerConfig) (digest : Digest) (job : DependencyJob)
    (request : ResolvedDependencyRequest) : Prop :=
  ∃ version, request.installRoot = job.dependencyRoot config digest ++
    [version, normalizeDependencyPathComponent digest job.platformKey]

end

/-! ## Updates -/

def SkillDependencyKind.directoryName : SkillDependencyKind → String
  | .tool => "tools"
  | .lua => "lua"
  | .ffi => "ffi"

structure CopyPlace where
  kind : SkillDependencyKind
  name : String
  version : String
deriving DecidableEq

/-- An update of a skill: the dependencies of the previous manifest with the requests under which they
were ready, those of the current one, and the tree just after the latter were ensured. -/
structure Update where
  config : DependencyManagerConfig
  digest : Digest
  platformKey : String
  skillId : String
  dependencyRoot : Path
  previous : PackageDependencyManifest
  current : PackageDependencyManifest
  prior : List (Declaration × ResolvedDependencyRequest)
  uses : List (Declaration × ResolvedDependencyRequest)
  tree : FileTree
  /-- The engine gives each kind its own directory in one root. -/
  layout : ∀ kind, config.installRootForKind kind .skill = dependencyRoot ++ [kind.directoryName]
  ensuredPrevious : ∃ answers before, (ensureSkillDependencies config digest platformKey skillId previous
    answers before).1 = .ok prior
  ensuredCurrent : ∃ answers before, ensureSkillDependencies config digest platformKey skillId current
    answers before = (.ok uses, tree)

namespace Update
variable (u : Update)

def cleanup : Except String FileTree :=
  cleanupUpdatedSkillDependencies u.config u.digest u.platformKey u.skillId (some u.previous)
    (some u.current) u.tree

def job (dependency : Declaration) : DependencyJob :=
  ⟨u.skillId, dependency.1, dependency.2, u.platformKey⟩

def normalize (text : String) : String := normalizeDependencyPathComponent u.digest text

def placeRoot (place : CopyPlace) : Path :=
  u.dependencyRoot ++
    [place.kind.directoryName, u.skillId, place.name, place.version, u.normalize u.platformKey]

/-- The directories that the name and the version text of a declaration stand for. -/
def declared (dependency : Declaration) : Option CopyPlace :=
  if dependency.2.scope = .skill ∧ (u.job dependency).package ≠ none then
    some ⟨dependency.1, u.normalize dependency.2.name,
      u.normalize (dependency.2.version.getD "unversioned")⟩
  else none

/-- A place that a version text of the previous manifest names and none of the current one. -/
def Stale (place : CopyPlace) : Prop :=
  (∃ dependency ∈ u.previous.dependencies, u.declared dependency = some place) ∧
    ∀ dependency ∈ u.current.dependencies, u.declared dependency ≠ some place

instance : DecidablePred u.Stale := fun _ => inferInstanceAs (Decidable (_ ∧ _))

/-- Where the copy of a request lies; the version directory is the last but one of its root. -/
def place (dependency : Declaration) (request : ResolvedDependencyRequest) : CopyPlace :=
  ⟨dependency.1, u.normalize dependency.2.name, (request.installRoot.dropLast.getLast?).getD ""⟩

/-- The dependency is detected: by the search for local copies, or under the request itself. -/
def detected (tree : FileTree) (use : Declaration × ResolvedDependencyRequest) : Bool :=
  ((findExistingLocalDependencyRequest u.config u.digest tree (u.job use.1)).toOption.getD none).isSome ||
    detectDependency tree use.2 = .ok .present

/-- A copy in which a dependency of the previous manifest was ready and that no dependency of the
current manifest uses. -/
def Abandoned (use : Declaration × ResolvedDependencyRequest) : Prop :=
  use ∈ u.prior ∧ use.1.2.scope = .skill ∧
    ∀ used ∈ u.uses, used.2.installRoot ≠ use.2.installRoot

/-- Every dependency that was ready is still detected, and every abandoned copy is gone. -/
structure Clean (after : FileTree) : Prop where
  kept : ∀ use ∈ u.uses, u.detected u.tree use → u.detected after use
  swept : ∀ use, u.Abandoned use → after.lookup use.2.installRoot = none

/-! ## The condition -/

/-- What is left to detect of a copy: nothing in a stale place. -/
def detectKept (dependency : Declaration) (request : ResolvedDependencyRequest) :
    Except String DependencyDetectionStatus :=
  detectDependency (if u.Stale (u.place dependency request) then .empty else u.tree) request

/-- The search for local copies without the stale places. One that declares no version only tries the
version directories that it finds. -/
def searchKept (dependency : Declaration) : Option ResolvedDependencyRequest :=
  (u.job dependency).package.bind fun package =>
    ((localDependencyProbeRequests u.config u.digest u.tree (u.job dependency) package).filter
      fun request => !(decide (dependency.2.version = none ∧ request.version ≠ none) &&
        decide (u.Stale (u.place dependency request)))).find?
      fun request => u.detectKept dependency request ≠ .ok .missing

/-- Another copy that the installer accepts, or the one in use, is complete in a place that stays. -/
def Survives (use : Declaration × ResolvedDependencyRequest) : Prop :=
  (∃ request, u.searchKept use.1 = some request ∧ u.detectKept use.1 request = .ok .present) ∨
    u.detectKept use.1 use.2 = .ok .present

/-- No stale place lies in or above the host's own directory. -/
def Apart (hostRoot : Path) : Prop :=
  ∀ place, u.Stale place → ¬ u.placeRoot place <+: hostRoot ∧ ¬ hostRoot <+: u.placeRoot place

def staleRoots : List Path :=
  ((u.previous.dependencies.filterMap u.declared).filter fun place => u.Stale place).map u.placeRoot

def remaining : FileTree := u.staleRoots.foldl FileTree.removeDirAll u.tree

/-- The version texts of the two manifests agree with the installer. -/
structure Agrees : Prop where
  kept : ∀ use ∈ u.uses, use.1.2.scope = .skill → u.detected u.tree use → u.Survives use
  host : ∀ use ∈ u.uses, use.1.2.scope = .host →
    ¬ u.Apart (u.config.installRootForKind use.1.1 .host) → u.detected u.tree use →
      u.detected u.remaining use
  swept : ∀ use, u.Abandoned use → u.tree.lookup use.2.installRoot ≠ none →
    u.Stale (u.place use.1 use.2)

/-! ## The removed places -/

variable {u} {after : FileTree} {place place' : CopyPlace} {dependency : Declaration}
  {request : ResolvedDependencyRequest} {use : Declaration × ResolvedDependencyRequest} {p : Path}

namespace Example

def package : DependencyPackageSpec where
  archiveType := .raw
  assetName := none
  url := some "https://example.com/rg"
  path := none
  sha256 := none
  exports := [⟨"rg", "bin/rg", true⟩]

def manifest (version : String) : PackageDependencyManifest where
  toolDependencies := [{
    name := "rg"
    version := some version
    required := true
    scope := .skill
    source := ⟨.url, none, none⟩
    packages := (∅ : SortedMap String DependencyPackageSpec).insert "linux-x64" package }]
  luaDependencies := []
  ffiDependencies := []

def config : DependencyManagerConfig :=
  ⟨["tools"], ["host", "tools"], ["lua"], ["host", "lua"], ["ffi"], ["host", "ffi"], ["cache"], true, none⟩

/-- Every download succeeds and every payload unpacks. -/
def answers : SkillDependencyKind → DependencySpec → InstallAnswers := fun _ _ =>
  { source := ⟨.error "no index", .error "no release", .error "no bundled payload"⟩
    first := ⟨.ok (), .ok fun _ => false⟩
    second := ⟨.ok (), .ok fun _ => false⟩ }

/-- No component of these paths needs a digest. -/
def digest : Digest := fun _ => ""

def ensured (version : String) (tree : FileTree) :
    Except String (List (Declaration × ResolvedDependencyRequest)) × FileTree :=
  ensureSkillDependencies config digest "linux-x64" "demo-skill" (manifest version) answers tree

/-- The dependencies that are ready when the manifest is ensured over a tree. -/
def uses (version : String) (tree : FileTree) : List (Declaration × ResolvedDependencyRequest) :=
  (ensured version tree).1.toOption.getD []

/-- The tree after version `1.0` was installed. -/
def installed : FileTree := (ensured "1.0" .empty).2

def cleaned (u : Update) : FileTree := u.cleanup.toOption.getD .empty

end Example

end Update

end LuaSkills.Dependency
