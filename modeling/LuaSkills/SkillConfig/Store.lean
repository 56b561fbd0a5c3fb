import LuaSkills.SkillConfig.Format

/-!
# Stores over one configuration file

Any number of stores, in any number of processes, share one file and its companion lock. A store
caches the last snapshot it accepted. A write holds the companion lock from before it reads the file
until its snapshot is installed; a refresh only reads. The path lock of a process serializes the
operations of a store, so a store is in one `Phase` at a time, and every step below is one section of
an operation between two points where other processes can run. `Event`s record what calls did.
-/

namespace LuaSkills.SkillConfig

/-! ## Write requests -/

/-- One transaction: a batch of values checked by the validator of its package, or the removal of one
key. -/
inductive WriteRequest where
  | set (skillId : String) (values : SortedMap String String)
      (validateCandidate : SortedMap String String → ConfigResult Unit)
  | delete (skillId key : String)

def WriteRequest.skillId : WriteRequest → String
  | .set skillId _ _ => skillId
  | .delete skillId _ => skillId

def validateSubmitted (entry : String × String) : ConfigResult Unit := do
  let _ ← validateSkillConfigKey entry.1
  refuseIf (skillConfigMaxValueBytes < entry.2.utf8ByteSize)
    ("CONFIG_VALUE_TOO_LONG: configuration '" ++ entry.1 ++
      "' UTF-8 byte length exceeds the hard limit " ++ skillConfigMaxValueBytes.repr)

/-- The checks made before the transaction; returns the parsed expected revision. -/
def WriteRequest.prepare (request : WriteRequest) (expectedRevision : Option String) :
    ConfigResult (Option UInt64) := do
  let _ ← validateSkillConfigSkillId request.skillId
  match request with
  | .set _ values _ =>
    refuseIf (values.isEmpty = true) "CONFIG_BATCH_EMPTY: configuration batch must not be empty"
    refuseIf (skillConfigMaxBatchKeys < values.size)
      ("CONFIG_BATCH_TOO_LARGE: configuration batch contains " ++ values.size.repr ++
        " keys, exceeding the hard limit " ++ skillConfigMaxBatchKeys.repr)
    values.entries.forM validateSubmitted
  | .delete _ key =>
    let _ ← validateSkillConfigKey key
  match expectedRevision with
  | none => return none
  | some text => return some (← parseExpectedRevision text)

/-- The batch written over a package, with the keys whose value it changes. -/
def setEntries : List (String × String) → SortedMap String String →
    SortedMap String String × List String
  | [], package => (package, [])
  | (key, value) :: rest, package =>
    if package.lookup key = some value then setEntries rest package
    else
      let result := setEntries rest (package.insert key value)
      (result.1, key :: result.2)

def WriteRequest.apply (request : WriteRequest) (document : SkillConfigDocument) :
    ConfigResult (SkillConfigDocument × List String) :=
  match request with
  | .set skillId values validateCandidate => do
    let package := (document.skills.lookup skillId).getD ∅
    let result := setEntries values.entries package
    validateCandidate result.1
    return ({ document with skills := document.skills.insert skillId result.1 }, result.2)
  | .delete skillId key =>
    match document.skills.lookup skillId with
    | none => .ok (document, [])
    | some items =>
      let remaining := items.erase key
      let skills := if remaining.isEmpty then document.skills.erase skillId
        else document.skills.insert skillId remaining
      .ok ({ document with skills }, if (items.lookup key).isSome then [key] else [])

/-! ## Progression -/

def validateSnapshotProgression (current candidate : SkillConfigSnapshot) (source : String) :
    ConfigResult Unit := do
  refuseIf (candidate.document.revision < current.document.revision)
    ("CONFIG_REVISION_REGRESSION: " ++ source ++ " revision " ++
      revisionText candidate.document.revision ++ " is older than cached revision " ++
      revisionText current.document.revision)
  refuseIf (candidate.document.revision = current.document.revision ∧
      candidate.contentDigest ≠ current.contentDigest)
    ("CONFIG_REVISION_CONFLICT: " ++ source ++ " revision " ++
      revisionText candidate.document.revision ++ " content differs from the cached snapshot")

/-- The next revision; the last one has none. -/
def nextRevision (revision : UInt64) : ConfigResult UInt64 := do
  refuseIf (revision.toNat + 1 = 2 ^ 64)
    "CONFIG_REVISION_EXHAUSTED: configuration revision cannot be incremented"
  return revision + 1

def changedSkillConfigKeys (before after : SkillConfigDocument) : List (String × List String) :=
  let skillIds := SortedMap.keySet (before.skills.keys ++ after.skills.keys)
  let changes := skillIds.map fun skillId =>
    let keys := SortedMap.keySet (((before.skills.lookup skillId).getD ∅).keys ++
      ((after.skills.lookup skillId).getD ∅).keys)
    (skillId, keys.filter fun key => before.value skillId key ≠ after.value skillId key)
  changes.filter fun change => change.2 ≠ []

/-! ## The stores -/

abbrev StoreId := ℕ
abbrev CallId := ℕ

/-- What a completed transaction reports. -/
structure WriteOutcome where
  request : WriteRequest
  revision : UInt64
  changedKeys : List String
  durabilityError : Option String

def WriteOutcome.changed (outcome : WriteOutcome) : Bool := outcome.changedKeys ≠ []

structure SkillConfigRefreshResult where
  revision : UInt64
  changed : Bool
  changes : List (String × List String)

structure WriteCall where
  call : CallId
  request : WriteRequest
  expected : Option UInt64

inductive Phase where
  | idle
  /-- Waiting for the companion lock. -/
  | waiting (write : WriteCall)
  /-- Holding it, before the file is read. -/
  | locked (write : WriteCall)
  /-- The file has been read and passed the checks. -/
  | loaded (write : WriteCall) (disk : SkillConfigSnapshot)
  /-- The file has been replaced, or needs no change. -/
  | committed (write : WriteCall) (snapshot : SkillConfigSnapshot) (outcome : WriteOutcome)
  /-- The snapshot is cached; the lock is still held. -/
  | installed (write : WriteCall) (outcome : WriteOutcome)
  /-- A refresh before and after it has read the file. -/
  | refreshing
  | candidate (snapshot : SkillConfigSnapshot)

structure Store where
  snapshot : SkillConfigSnapshot
  phase : Phase

inductive Event where
  /-- A write started on that cached snapshot. -/
  | began (call : CallId) (store : StoreId) (cached : SkillConfigSnapshot)
  /-- The file with document `base` has been replaced by one with document `result`. -/
  | replaced (write : WriteCall) (store : StoreId) (base result : SkillConfigDocument)
  | installed (call : CallId) (store : StoreId) (snapshot : SkillConfigSnapshot)
  /-- A write returned an error, with that snapshot cached. -/
  | failed (call : CallId) (store : StoreId) (cached : SkillConfigSnapshot) (message : String)
  | wrote (call : CallId) (store : StoreId) (outcome : WriteOutcome)
  | refreshed (store : StoreId) (result : ConfigResult SkillConfigRefreshResult)

structure World where
  disk : Option (List UInt8)
  /-- The store that holds the companion lock. -/
  lock : Option StoreId
  stores : StoreId → Option Store
  nextCall : CallId
  log : List Event

/-- The file as it is found, and no store. -/
def World.initial (disk : Option (List UInt8)) : World where
  disk := disk
  lock := none
  stores := fun _ => none
  nextCall := 0
  log := []

inductive Act where
  /-- Constructs a store, reading the file. -/
  | create (i : StoreId)
  | begin (i : StoreId) (request : WriteRequest) (expectedRevision : Option String)
  /-- The companion lock is obtained, or is not for the reason given. -/
  | acquire (i : StoreId) (failure : Option String)
  | load (i : StoreId) (failure : Option String)
  | commit (i : StoreId) (io : WriteAnswers)
  | install (i : StoreId)
  | finish (i : StoreId)
  | refresh (i : StoreId)
  | reload (i : StoreId) (failure : Option String)
  | replaceCache (i : StoreId)
  /-- The process of the store ends. -/
  | drop (i : StoreId)

namespace World
variable (linked : Linked) (path : String) (w : World)

def setStore (i : StoreId) (store : Store) : World :=
  { w with stores := Function.update w.stores i (some store) }

/-- The lock, released if `i` holds it. -/
def unlock (i : StoreId) : Option StoreId := if w.lock = some i then none else w.lock

/-- A write of store `i` returns an error. -/
def fail (i : StoreId) (store : Store) (call : CallId) (message : String) : World :=
  { w.setStore i { store with phase := .idle } with
    lock := w.unlock i, log := .failed call i store.snapshot message :: w.log }

def create (i : StoreId) : Option World :=
  match w.stores i, readSnapshotFrom linked path w.disk with
  | none, .ok snapshot => some (w.setStore i ⟨snapshot, .idle⟩)
  | _, _ => none

def begin (i : StoreId) (store : Store) (request : WriteRequest)
    (expectedRevision : Option String) : World :=
  let call := w.nextCall
  let w := { w with nextCall := call + 1, log := .began call i store.snapshot :: w.log }
  match request.prepare expectedRevision with
  | .error message => w.fail i store call message
  | .ok expected => w.setStore i { store with phase := .waiting ⟨call, request, expected⟩ }

def acquire (i : StoreId) (store : Store) (write : WriteCall) : Option String → Option World
  | some message => some (w.fail i store write.call message)
  | none =>
    if w.lock = none then
      some { w.setStore i { store with phase := .locked write } with lock := some i }
    else none

/-- The read of a transaction: the file, then the checks against the cache and the expected
revision. -/
def readCurrent (store : Store) (write : WriteCall) (failure : Option String) :
    ConfigResult SkillConfigSnapshot := do
  answered "CONFIG_PATH_UNAVAILABLE: " failure
  let disk ← readSnapshotFrom linked path w.disk
  validateSnapshotProgression store.snapshot disk "disk"
  refuseIf (write.expected.any (· ≠ disk.document.revision) = true)
    ("CONFIG_REVISION_CONFLICT: expected revision " ++
      revisionText (write.expected.getD 0) ++ " but disk revision is " ++
      revisionText disk.document.revision)
  return disk

def load (i : StoreId) (store : Store) (write : WriteCall) (failure : Option String) : World :=
  match w.readCurrent linked path store write failure with
  | .error message => w.fail i store write.call message
  | .ok disk => w.setStore i { store with phase := .loaded write disk }

/-- The transaction on the document that was read: the document to cache, with the bytes that
replace the file if anything changed. -/
def transact (write : WriteCall) (disk : SkillConfigSnapshot) (io : WriteAnswers) :
    ConfigResult (SkillConfigSnapshot × List String × Option (List UInt8)) := do
  let (document, changedKeys) ← write.request.apply disk.document
  if changedKeys = [] then
    return (⟨disk.contentDigest, document⟩, changedKeys, none)
  else
    let revision ← nextRevision document.revision
    let document := { document with revision }
    let bytes ← writeDocumentTo linked path io document
    return (⟨linked.hexSha256 bytes, document⟩, changedKeys, some bytes)

def commit (i : StoreId) (store : Store) (write : WriteCall) (disk : SkillConfigSnapshot)
    (io : WriteAnswers) : World :=
  match transact linked path write disk io with
  | .error message => w.fail i store write.call message
  | .ok (snapshot, changedKeys, none) =>
    w.setStore i { store with
      phase := .committed write snapshot ⟨write.request, snapshot.document.revision, changedKeys, none⟩ }
  | .ok (snapshot, changedKeys, some bytes) =>
    { w.setStore i { store with
        phase := .committed write snapshot
          ⟨write.request, snapshot.document.revision, changedKeys, io.sync⟩ } with
      disk := some bytes
      log := .replaced write i disk.document snapshot.document :: w.log }

def install (i : StoreId) (write : WriteCall) (snapshot : SkillConfigSnapshot)
    (outcome : WriteOutcome) : World :=
  { w.setStore i ⟨snapshot, .installed write outcome⟩ with
    log := .installed write.call i snapshot :: w.log }

def finish (i : StoreId) (store : Store) (write : WriteCall) (outcome : WriteOutcome) : World :=
  { w.setStore i { store with phase := .idle } with
    lock := w.unlock i, log := .wrote write.call i outcome :: w.log }

def endRefresh (i : StoreId) (snapshot : SkillConfigSnapshot)
    (result : ConfigResult SkillConfigRefreshResult) : World :=
  { w.setStore i ⟨snapshot, .idle⟩ with log := .refreshed i result :: w.log }

def reload (i : StoreId) (cached : SkillConfigSnapshot) (failure : Option String) : World :=
  match answered "CONFIG_PATH_UNAVAILABLE: " failure >>= fun _ =>
      readSnapshotFrom linked path w.disk with
  | .error message => w.endRefresh i cached (.error message)
  | .ok snapshot => w.setStore i ⟨cached, .candidate snapshot⟩

def replaceCache (i : StoreId) (cached snapshot : SkillConfigSnapshot) : World :=
  match validateSnapshotProgression cached snapshot "external" with
  | .error message => w.endRefresh i cached (.error message)
  | .ok () =>
    if snapshot.document.revision = cached.document.revision then
      w.endRefresh i cached (.ok ⟨snapshot.document.revision, false, []⟩)
    else
      w.endRefresh i snapshot (.ok ⟨snapshot.document.revision, true,
        changedSkillConfigKeys cached.document snapshot.document⟩)

/-- One step; there is none where the store is not at that point of an operation. -/
def step : Act → Option World
  | .create i => w.create linked path i
  | .begin i request expectedRevision =>
    match w.stores i with
    | some ⟨snapshot, .idle⟩ => some (w.begin i ⟨snapshot, .idle⟩ request expectedRevision)
    | _ => none
  | .acquire i failure =>
    match w.stores i with
    | some ⟨snapshot, .waiting write⟩ => w.acquire i ⟨snapshot, .waiting write⟩ write failure
    | _ => none
  | .load i failure =>
    match w.stores i with
    | some ⟨snapshot, .locked write⟩ =>
      some (w.load linked path i ⟨snapshot, .locked write⟩ write failure)
    | _ => none
  | .commit i io =>
    match w.stores i with
    | some ⟨snapshot, .loaded write disk⟩ =>
      some (w.commit linked path i ⟨snapshot, .loaded write disk⟩ write disk io)
    | _ => none
  | .install i =>
    match w.stores i with
    | some ⟨_, .committed write snapshot outcome⟩ => some (w.install i write snapshot outcome)
    | _ => none
  | .finish i =>
    match w.stores i with
    | some ⟨snapshot, .installed write outcome⟩ =>
      some (w.finish i ⟨snapshot, .installed write outcome⟩ write outcome)
    | _ => none
  | .refresh i =>
    match w.stores i with
    | some ⟨snapshot, .idle⟩ => some (w.setStore i ⟨snapshot, .refreshing⟩)
    | _ => none
  | .reload i failure =>
    match w.stores i with
    | some ⟨cached, .refreshing⟩ => some (w.reload linked path i cached failure)
    | _ => none
  | .replaceCache i =>
    match w.stores i with
    | some ⟨cached, .candidate snapshot⟩ => some (w.replaceCache i cached snapshot)
    | _ => none
  | .drop i =>
    match w.stores i with
    | some _ => some { w with stores := Function.update w.stores i none, lock := w.unlock i }
    | none => none

end World

/-- The worlds reached from `w` by steps. -/
inductive Reaches (linked : Linked) (path : String) (w : World) : World → Prop
  | refl : Reaches linked path w w
  | step {w' w'' : World} {a : Act} : Reaches linked path w w' → w'.step linked path a = some w'' →
      Reaches linked path w w''

theorem Reaches.trans (h : Reaches linked path w w') (h' : Reaches linked path w' w'') :
    Reaches linked path w w'' := by
  induction h' with
  | refl => exact h
  | step _ hstep ih => exact ih.step hstep

end LuaSkills.SkillConfig
