import Mathlib.Logic.Function.Basic
import LuaSkills.Download.Cache

/-!
# Downloads and dependency installations over one cache

Tasks of any callers run interleaved over one cache root. A call holds the lock of its target while it
inspects, fetches and publishes; the path it returns is read after the lock is released, and a failed
installation removes the cache file without taking the lock. The network serves one payload for each
locator; every other answer of the environment is an argument of the step.
-/

namespace LuaSkills.Download

open Dependency Function

/-- What lies outside the program: the digest, the payload behind each URL, the files of the skill
packages, and the readers of index files and archives. -/
structure Services where
  config : DependencyManagerConfig
  platformKey : String
  digest : Digest
  serve : String → Payload
  bundled : String → Payload
  parseIndex : Payload → Except String SkillListIndexFile
  unpack : DependencyArchiveType → List DependencyExportSpec → Payload →
    Except String (List (String × Payload))

def Services.downloads (s : Services) : DownloadManagerConfig :=
  ⟨s.config.downloadCacheRoot, s.config.allowNetworkDownload⟩

/-! ## Tasks -/

/-- The rest of one `ensure_skill_dependencies`. -/
structure Ensuring where
  skillId : String
  remaining : List (SkillDependencyKind × DependencySpec)

/-- What the caller of a download does with the path. -/
inductive Purpose where
  | file
  | text
  | index (job : DependencyJob) (rest : Ensuring)
  | archive (job : DependencyJob) (resolved : ResolvedDependencyRequest)
      (firstError : Option String) (rest : Ensuring)

/-- Where a call of `download_internal` stands. -/
inductive Stage where
  | queued
  | locked
  | hit
  | fetching (attempts : ℕ) (firstError : Option String)
  | pending (bytes : Payload)
  | held

inductive Task where
  | ensuring (rest : Ensuring)
  | calling (call : Call) (stage : Stage) (purpose : Purpose)
  | bundling (job : DependencyJob) (resolved : ResolvedDependencyRequest) (rest : Ensuring)
  | cleaning (call : Call) (job : DependencyJob) (resolved : ResolvedDependencyRequest)
      (firstError : String) (rest : Ensuring)
  | detecting (job : DependencyJob) (resolved : ResolvedDependencyRequest) (rest : Ensuring)
  | finished (outcome : Except String Unit)

structure CacheFile where
  bytes : Payload
  origin : String
deriving DecidableEq

structure Delivery where
  call : Call
  bytes : Payload

/-- Files exported by a new installation, with the archive they were taken from. -/
structure Installation where
  job : DependencyJob
  resolved : ResolvedDependencyRequest
  archive : Payload
  exported : List (String × Payload)

structure World where
  cache : Path → Option CacheFile
  locks : Path → Option ℕ
  tasks : ℕ → Option Task
  returned : List Delivery
  installed : List Installation

namespace World

def empty : World where
  cache := fun _ => none
  locks := fun _ => none
  tasks := fun _ => none
  returned := []
  installed := []

def setTask (w : World) (t : ℕ) (task : Task) : World :=
  { w with tasks := update w.tasks t (some task) }

def setFile (w : World) (path : Path) (file : Option CacheFile) : World :=
  { w with cache := update w.cache path file }

def setLock (w : World) (path : Path) (owner : Option ℕ) : World :=
  { w with locks := update w.locks path owner }

def deliver (w : World) (call : Call) (bytes : Payload) : World :=
  { w with returned := w.returned ++ [⟨call, bytes⟩] }

def install (w : World) (installation : Installation) : World :=
  { w with installed := w.installed ++ [installation] }

def read (w : World) (path : Path) (fault : Option String) : Except String Payload :=
  match fault, w.cache path with
  | some error, _ => .error ("Failed to read " ++ renderDownloadPath path ++ ": " ++ error)
  | none, some file => .ok file.bytes
  | none, none => .error ("Failed to read " ++ renderDownloadPath path ++ ": not found")

/-- `download_internal` returns: the lock goes, and the caller holds the path of what is there. -/
def hold (w : World) (t : ℕ) (call : Call) (purpose : Purpose) : World :=
  let w := (w.setLock call.targetPath none).setTask t (.calling call .held purpose)
  match w.cache call.targetPath with
  | some file => w.deliver call file.bytes
  | none => w

end World

/-! ## Callers -/

inductive Caller where
  | download (request : DownloadRequest)
  | downloadWithSha256 (request : DownloadRequest) (expectedSha256 : String)
  | fetchText (url cacheKey : String)
  | fetchTextFresh (url cacheKey : String)
  | ensureSkillDependencies (skillId : String) (manifest : PackageDependencyManifest)

def dependencyKindLabel : SkillDependencyKind → String
  | .tool => "tool"
  | .lua => "lua"
  | .ffi => "ffi"

def dependencyCacheKey (job : DependencyJob) : String :=
  dependencyKindLabel job.kind ++ "-" ++ job.spec.name ++ "-" ++ job.platformKey

/-- `download_dependency_payload`'s request. -/
def dependencyRequest (job : DependencyJob) (resolved : ResolvedDependencyRequest) : DownloadRequest :=
  ⟨resolved.downloadUrl, dependencyCacheKey job⟩

def dependencyValidation (resolved : ResolvedDependencyRequest) : DownloadValidation :=
  resolved.expectedSha256.elim .none .sha256

def urlSafeAlphabet : List Char :=
  "ABCDEFGHIJKLMNOPQRSTUVWXYZabcdefghijklmnopqrstuvwxyz0123456789-_".toList

def urlSafeDigit (n : ℕ) : Char := urlSafeAlphabet.getD (n % 64) 'A'

/-- The unpadded URL-safe base64 text. -/
def encodeUrlSafe : List UInt8 → List Char
  | [] => []
  | [a] => [urlSafeDigit (a.toNat / 4), urlSafeDigit (a.toNat % 4 * 16)]
  | [a, b] =>
    [urlSafeDigit (a.toNat / 4), urlSafeDigit (a.toNat % 4 * 16 + b.toNat / 16),
      urlSafeDigit (b.toNat % 16 * 4)]
  | a :: b :: c :: rest =>
    urlSafeDigit (a.toNat / 4) :: urlSafeDigit (a.toNat % 4 * 16 + b.toNat / 16) ::
      urlSafeDigit (b.toNat % 16 * 4 + c.toNat / 64) :: urlSafeDigit c.toNat :: encodeUrlSafe rest

def skilllistCacheKey (url : String) : String := "skilllist-" ++ String.ofList (encodeUrlSafe (utf8 url))

/-- An error of one dependency ends the installation only when the dependency is required. -/
def failDependency (job : DependencyJob) (rest : Ensuring) (error : String) : Task :=
  if job.spec.required then .finished (.error error) else .ensuring rest

def Purpose.failed (error : String) : Purpose → Task
  | .file | .text => .finished (.error error)
  | .index job rest | .archive job _ _ rest => failDependency job rest error

namespace Services
variable (s : Services)

def beginCall (request : DownloadRequest) (validation : DownloadValidation)
    (policy : DownloadCachePolicy) (purpose : Purpose) (created : Except String Unit) : Task :=
  match openCall s.downloads s.digest request validation policy created with
  | .ok call => .calling call .queued purpose
  | .error error => purpose.failed error

def beginArchive (job : DependencyJob) (resolved : ResolvedDependencyRequest)
    (firstError : Option String) (rest : Ensuring) (created : Except String Unit) : Task :=
  s.beginCall (dependencyRequest job resolved) (dependencyValidation resolved) .reuse
    (.archive job resolved firstError rest) created

def begin (created : Except String Unit) : Caller → Task
  | .download request => s.beginCall request .none .reuse .file created
  | .downloadWithSha256 request expectedSha256 =>
    s.beginCall request (.sha256 expectedSha256) .reuse .file created
  | .fetchText url cacheKey => s.beginCall ⟨url, cacheKey⟩ .utf8 .reuse .text created
  | .fetchTextFresh url cacheKey => s.beginCall ⟨url, cacheKey⟩ .utf8 .refresh .text created
  | .ensureSkillDependencies skillId manifest =>
    match SkillConfig.validateLuaskillsIdentifier skillId "skill_id" with
    | .error error => .finished (.error error)
    | .ok () =>
      if s.platformKey = "unknown" then
        .finished (.error "current platform is not supported by LuaSkills dependency manager")
      else .ensuring ⟨skillId, manifest.dependencies⟩

/-- `install_dependency` past the local copies: the request is resolved, and its archive fetched unless
the resolved root is ready. -/
def continueInstall (job : DependencyJob) (rest : Ensuring) (answers : SourceAnswers)
    (detected : Except String Bool) (created : Except String Unit) : Task :=
  match resolveDependencyRequest s.config s.digest job answers with
  | .error error => failDependency job rest error
  | .ok resolved =>
    match detected with
    | .error error => failDependency job rest error
    | .ok true => .ensuring rest
    | .ok false =>
      if job.spec.source.sourceType = .bundled then .bundling job resolved rest
      else s.beginArchive job resolved none rest created

/-- `install_dependency` for the next dependency; `found` tells whether a local copy is ready. -/
def considerDependency (job : DependencyJob) (rest : Ensuring) (found : Except String Bool)
    (answers : SourceAnswers) (detected : Except String Bool) (created : Except String Unit) : Task :=
  match if job.package.isSome then found else .ok false with
  | .error error => failDependency job rest error
  | .ok true => .ensuring rest
  | .ok false =>
    if job.spec.scope = .host then
      failDependency job rest ("host dependency '" ++ job.spec.name ++ "' is missing")
    else if s.config.allowNetworkDownload = false ∧ job.spec.source.sourceType ≠ .bundled then
      failDependency job rest
        ("dependency '" ++ job.spec.name ++ "' is missing and network download is disabled")
    else
      match job.spec.source.sourceType, job.spec.source.skilllist with
      | .skillList, some skilllist =>
        s.beginCall ⟨skilllist.url, skilllistCacheKey skilllist.url⟩ .utf8 .reuse (.index job rest)
          created
      | _, _ => s.continueInstall job rest answers detected created

end Services

/-! ## Steps -/

inductive Action where
  | start (t : ℕ) (caller : Caller) (created : Except String Unit)
  | consider (t : ℕ) (found : Except String Bool) (answers : SourceAnswers)
      (detected : Except String Bool) (created : Except String Unit)
  | lock (t : ℕ)
  | inspect (t : ℕ) (fault : Option String)
  | reuse (t : ℕ) (fault : Option String)
  | fetch (t : ℕ) (fault : Option String)
  | publish (t : ℕ) (fault : Option String)
  | use (t : ℕ) (fault : Option String) (detected : Except String Bool) (created : Except String Unit)
  | clean (t : ℕ) (removed rootRemoved : Except String Unit) (created : Except String Unit)
  | bundle (t : ℕ) (fault : Option String)
  | detect (t : ℕ) (detected : Except String Bool)
  | remove (path : Path)

/-- A call that fails under the lock gives it back. -/
def World.failCall (w : World) (t : ℕ) (call : Call) (purpose : Purpose) (error : String) : World :=
  (w.setLock call.targetPath none).setTask t (purpose.failed error)

namespace Services
variable (s : Services)

/-- Under the lock: a cache file may be reused unless the policy asks for a fresh one. -/
def inspectTarget (w : World) (t : ℕ) (call : Call) (purpose : Purpose) (fault : Option String) :
    World :=
  match fault with
  | some error => w.failCall t call purpose
      ("Failed to inspect cached download target " ++ renderDownloadPath call.targetPath ++ ": " ++ error)
  | none =>
    if call.policy = .reuse ∧ w.cache call.targetPath ≠ none then
      w.setTask t (.calling call .hit purpose)
    else
      -- A payload with a digest has one automatic retry.
      w.setTask t (.calling call (.fetching (if call.expectedSha256 = none then 1 else 2) none) purpose)

def reuseTarget (w : World) (t : ℕ) (call : Call) (purpose : Purpose) (fault : Option String) : World :=
  match judgeCached s.digest call (w.read call.targetPath fault) with
  | .answered => w.hold t call purpose
  | .rejected error => w.setTask t (.calling call (.fetching 1 (some error)) purpose)
  | .failed error => w.failCall t call purpose error

def fetchTarget (w : World) (t : ℕ) (call : Call) (purpose : Purpose) (attempts : ℕ)
    (firstError fault : Option String) : World :=
  match fault with
  | some error => w.failCall t call purpose
      ("Failed to download " ++ call.request.sourceLocator ++ ": " ++ error)
  | none =>
    match judgeFetched s.digest call (s.serve call.request.sourceLocator) with
    | .pending => w.setTask t (.calling call (.pending (s.serve call.request.sourceLocator)) purpose)
    | .failed error => w.failCall t call purpose error
    | .mismatch error =>
      if 1 < attempts then
        w.setTask t (.calling call (.fetching (attempts - 1) (some error)) purpose)
      else w.failCall t call purpose (retryFailed firstError error)

def publishTarget (w : World) (t : ℕ) (call : Call) (purpose : Purpose) (bytes : Payload)
    (fault : Option String) : World :=
  match fault with
  | some error => w.failCall t call purpose
      ("Failed to publish " ++ renderDownloadPath call.targetPath ++ ": " ++ error)
  | none =>
    (w.setFile call.targetPath (some ⟨bytes, call.request.sourceLocator⟩)).hold t call purpose

def useTarget (w : World) (t : ℕ) (call : Call) (fault : Option String) (detected : Except String Bool)
    (created : Except String Unit) : Purpose → World
  | .file =>
    match w.read call.targetPath fault with
    | .error error => w.setTask t (.finished (.error error))
    | .ok bytes => (w.deliver call bytes).setTask t (.finished (.ok ()))
  | .text =>
    match w.read call.targetPath fault with
    | .error error => w.setTask t (.finished (.error error))
    | .ok bytes =>
      if isUtf8 bytes then (w.deliver call bytes).setTask t (.finished (.ok ()))
      else w.setTask t (.finished (.error (decodeFailed call)))
  | .index job rest =>
    match w.read call.targetPath fault with
    | .error error => w.setTask t (failDependency job rest error)
    | .ok bytes =>
      if isUtf8 bytes then
        (w.deliver call bytes).setTask t
          (s.continueInstall job rest
            ⟨s.parseIndex bytes, .error "no release", .error "no bundled payload"⟩ detected created)
      else w.setTask t (failDependency job rest (decodeFailed call))
  | .archive job resolved firstError rest =>
    match w.read call.targetPath fault >>= s.unpack resolved.archiveType resolved.exports with
    | .ok exported =>
      (w.install ⟨job, resolved, (w.cache call.targetPath).elim [] CacheFile.bytes, exported⟩).setTask t
        (.detecting job resolved rest)
    | .error error =>
      match firstError with
      | none => w.setTask t (.cleaning call job resolved error rest)
      | some firstError =>
        w.setTask t (failDependency job rest
          (firstError ++ ". Automatic redownload and reinstall also failed: " ++ error))

/-- `cleanup_failed_dependency_install_attempt`, and the request once more. The file goes without the
target lock. -/
def cleanAttempt (w : World) (t : ℕ) (call : Call) (job : DependencyJob)
    (resolved : ResolvedDependencyRequest) (firstError : String) (rest : Ensuring)
    (removed rootRemoved created : Except String Unit) : World :=
  match removed with
  | .error error => w.setTask t (failDependency job rest error)
  | .ok () =>
    let w := w.setFile call.targetPath none
    match rootRemoved with
    | .error error => w.setTask t (failDependency job rest error)
    | .ok () => w.setTask t (s.beginArchive job resolved (some firstError) rest created)

/-- `install_bundled_dependency` up to its detection: the payload is a file of the skill package. -/
def bundlePayload (w : World) (t : ℕ) (job : DependencyJob) (resolved : ResolvedDependencyRequest)
    (rest : Ensuring) (fault : Option String) : World :=
  let payload := s.bundled resolved.downloadUrl
  let checked : Except String Unit :=
    match resolved.expectedSha256 with
    | none => .ok ()
    | some expectedSha256 => do
      let expected ← normalizeExpectedSha256 [resolved.downloadUrl] expectedSha256
      refuseIf (s.digest payload ≠ expected)
        ("Checksum mismatch for " ++ resolved.downloadUrl ++ ": expected " ++ expected ++ ", got " ++
          s.digest payload)
  match fault, checked >>= fun _ => s.unpack resolved.archiveType resolved.exports payload with
  | some error, _ => w.setTask t (failDependency job rest error)
  | none, .error error => w.setTask t (failDependency job rest error)
  | none, .ok exported =>
    (w.install ⟨job, resolved, payload, exported⟩).setTask t (.detecting job resolved rest)

def detectInstalled (job : DependencyJob) (rest : Ensuring) : Except String Bool → Task
  | .error error => failDependency job rest error
  | .ok true => .ensuring rest
  | .ok false =>
    failDependency job rest
      (if job.spec.source.sourceType = .bundled then
        "bundled dependency '" ++ job.spec.name ++ "' was installed but exported files are still missing"
      else "dependency '" ++ job.spec.name ++ "' was downloaded but exported files are still missing")

def step (w : World) : Action → Option World
  | .start t caller created =>
    match w.tasks t with
    | none => some (w.setTask t (s.begin created caller))
    | some _ => none
  | .consider t found answers detected created =>
    match w.tasks t with
    | some (.ensuring ⟨_, []⟩) => some (w.setTask t (.finished (.ok ())))
    | some (.ensuring ⟨skillId, (kind, spec) :: remaining⟩) =>
      some (w.setTask t (s.considerDependency ⟨skillId, kind, spec, s.platformKey⟩ ⟨skillId, remaining⟩
        found answers detected created))
    | _ => none
  | .lock t =>
    match w.tasks t with
    | some (.calling call .queued purpose) =>
      if w.locks call.targetPath = none then
        some ((w.setLock call.targetPath (some t)).setTask t (.calling call .locked purpose))
      else none
    | _ => none
  | .inspect t fault =>
    match w.tasks t with
    | some (.calling call .locked purpose) => some (inspectTarget w t call purpose fault)
    | _ => none
  | .reuse t fault =>
    match w.tasks t with
    | some (.calling call .hit purpose) => some (s.reuseTarget w t call purpose fault)
    | _ => none
  | .fetch t fault =>
    match w.tasks t with
    | some (.calling call (.fetching attempts firstError) purpose) =>
      some (s.fetchTarget w t call purpose attempts firstError fault)
    | _ => none
  | .publish t fault =>
    match w.tasks t with
    | some (.calling call (.pending bytes) purpose) =>
      some (publishTarget w t call purpose bytes fault)
    | _ => none
  | .use t fault detected created =>
    match w.tasks t with
    | some (.calling call .held purpose) => some (s.useTarget w t call fault detected created purpose)
    | _ => none
  | .clean t removed rootRemoved created =>
    match w.tasks t with
    | some (.cleaning call job resolved firstError rest) =>
      some (s.cleanAttempt w t call job resolved firstError rest removed rootRemoved created)
    | _ => none
  | .bundle t fault =>
    match w.tasks t with
    | some (.bundling job resolved rest) => some (s.bundlePayload w t job resolved rest fault)
    | _ => none
  | .detect t detected =>
    match w.tasks t with
    | some (.detecting job _ rest) => some (w.setTask t (detectInstalled job rest detected))
    | _ => none
  | .remove path => some (w.setFile path none)

def run (w : World) : List Action → Option World
  | [] => some w
  | a :: as => (s.step w a).bind fun w' => run w' as

end Services

end LuaSkills.Download
