import LuaSkills.Dependency.Spec

/-!
# The download cache

A download request names a source locator and a cache key. The file that answers it is found under the
digest of the key and an extension inferred from the locator; the locator itself is no part of the
path. A request is answered from an existing file when its policy allows it, and otherwise by fetching
its locator and publishing the payload over the file.
-/

namespace LuaSkills.Download

open SkillConfig (trim)
open Dependency (Path Digest utf8)

abbrev Payload := List UInt8

structure DownloadRequest where
  sourceLocator : String
  cacheKey : String
deriving DecidableEq

inductive DownloadValidation where
  | none
  | sha256 (expected : String)
  | utf8
deriving DecidableEq

inductive DownloadCachePolicy where
  | reuse
  | refresh
deriving DecidableEq

structure DownloadManagerConfig where
  cacheRoot : Path
  allowNetworkDownload : Bool

/-! ## Cache paths -/

/-- `Path::file_name` of a text: the last component that is not empty or a dot. -/
def fileName (text : String) : Option String :=
  ((Text.split '/' text).filter fun part => part ≠ "" && part ≠ ".").getLast?.filter (· ≠ "..")

/-- `Path::extension`: what follows the last dot of the file name, unless that dot starts it. -/
def fileExtension (text : String) : Option String := do
  let parts := Text.split '.' (← fileName text)
  if 2 ≤ parts.length ∧ parts.dropLast ≠ [""] then parts.getLast? else .none

def inferDownloadExtension (url : String) : String :=
  let lower := Text.toAsciiLowercase url
  if Text.endsWith lower ".tar.gz" then ".tar.gz"
  else if Text.endsWith lower ".zip" then ".zip"
  else
    match fileExtension url with
    | some "txt" => ".txt"
    | some "yaml" => ".yaml"
    | some "yml" => ".yml"
    | some "json" => ".json"
    | some "dll" => ".dll"
    | some "so" => ".so"
    | some "dylib" => ".dylib"
    | some "lua" => ".lua"
    | _ => ""

def cachedPathForRequest (config : DownloadManagerConfig) (digest : Digest)
    (request : DownloadRequest) : Path :=
  config.cacheRoot ++ [digest (utf8 request.cacheKey) ++ inferDownloadExtension request.sourceLocator]

def renderDownloadPath (path : Path) : String := "/" ++ String.intercalate "/" path

/-! ## One call of `download_internal` -/

def normalizeExpectedSha256 (path : Path) (expectedSha256 : String) : Except String String :=
  let expected := Text.toAsciiLowercase (trim expectedSha256)
  if Text.byteLength expected ≠ 64 ∨ ¬ expected.toList.all Text.isAsciiHexdigit then
    .error ("Expected checksum for " ++ renderDownloadPath path ++ " is not one valid SHA-256 value")
  else .ok expected

def isUtf8 (bytes : Payload) : Bool := (ByteArray.mk bytes.toArray).validateUTF8

/-- A call past the checks that precede the target lock. -/
structure Call where
  request : DownloadRequest
  policy : DownloadCachePolicy
  targetPath : Path
  expectedSha256 : Option String
  requiresUtf8 : Bool
deriving DecidableEq

/-- The start of `download_internal`, up to the target lock; `created` is the answer to creating the
cache root. -/
def openCall (config : DownloadManagerConfig) (digest : Digest) (request : DownloadRequest)
    (validation : DownloadValidation) (policy : DownloadCachePolicy)
    (created : Except String Unit) : Except String Call := do
  refuseIf (config.allowNetworkDownload = false) "network download is disabled by host policy"
  created
  let targetPath := cachedPathForRequest config digest request
  let expectedSha256 ←
    match validation with
    | .sha256 value => some <$> normalizeExpectedSha256 targetPath value
    | .none | .utf8 => pure Option.none
  return { request, policy, targetPath, expectedSha256, requiresUtf8 := validation = .utf8 }

/-- The texts of a rejected payload. -/
def checksumMismatch (call : Call) (expected actual : String) : String :=
  "Checksum mismatch for " ++ renderDownloadPath call.targetPath ++ ": expected " ++ expected ++
    ", got " ++ actual

def decodeFailed (call : Call) : String :=
  "Failed to decode " ++ renderDownloadPath call.targetPath ++ " as UTF-8"

/-- What an existing cache file means for a call that may reuse it: it answers the call, it is
fetched again behind a diagnostic, or the call fails. -/
inductive CacheVerdict where
  | answered
  | rejected (error : String)
  | failed (error : String)
deriving DecidableEq

/-- The reuse of the cache file; `read` is what reading it now yields. -/
def judgeCached (digest : Digest) (call : Call) (read : Except String Payload) : CacheVerdict :=
  match call.expectedSha256, read with
  | some expected, .ok bytes =>
    if digest bytes = expected then .answered
    else .rejected (checksumMismatch call expected (digest bytes))
  | some _, .error error => .rejected error
  | .none, .ok bytes =>
    if call.requiresUtf8 ∧ isUtf8 bytes = false then
      .failed (decodeFailed call)
    else .answered
  | .none, .error error => if call.requiresUtf8 then .failed error else .answered

/-- What one fetched payload means: it can be published, its checksum is wrong, or the call fails. -/
inductive FetchVerdict where
  | pending
  | mismatch (error : String)
  | failed (error : String)
deriving DecidableEq

def judgeFetched (digest : Digest) (call : Call) (bytes : Payload) : FetchVerdict :=
  match call.expectedSha256 with
  | some expected =>
    if digest bytes ≠ expected then .mismatch (checksumMismatch call expected (digest bytes))
    else .pending
  | .none =>
    if call.requiresUtf8 ∧ isUtf8 bytes = false then
      .failed (decodeFailed call)
    else .pending

/-- The text of the last rejected attempt, behind the first rejection. -/
def retryFailed (firstError : Option String) (error : String) : String :=
  match firstError with
  | some firstError =>
    firstError ++ ". Automatic redownload also failed checksum verification: " ++ error
  | .none => error

/-- A payload that belongs to a call: it was served for the call's own locator or has the digest the
call expects. -/
def Call.Owns (call : Call) (digest : Digest) (serve : String → Payload) (bytes : Payload) : Prop :=
  bytes = serve call.request.sourceLocator ∨ call.expectedSha256 = some (digest bytes)

end LuaSkills.Download
