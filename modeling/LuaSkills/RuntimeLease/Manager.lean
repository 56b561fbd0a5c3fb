import LuaSkills.Data.AssocMap
import LuaSkills.Data.Fallible

/-!
# The runtime session manager

Persistent Lua sessions are leased under a session identifier. The manager's maps change only under the
manager's lock; each session sits behind a lock of its own, which an evaluation holds while it runs.
Locks are tried, never awaited, except the manager's own.
-/

namespace LuaSkills.RuntimeLease

/-- `MAX_RUNTIME_SESSION_LEASES_PER_MANAGER`. -/
def maxLeases : ℕ := 8

inductive RuntimeLeaseProfile where
  | publicLease | systemLuaLib
deriving DecidableEq

def RuntimeLeaseProfile.asStr : RuntimeLeaseProfile → String
  | .publicLease => "public"
  | .systemLuaLib => "system_lua_lib"

/-- The codes under which a lease ends, which are also the states of its terminal marker. -/
inductive TerminalCode where
  | closed | expired | replaced
deriving DecidableEq

inductive RuntimeSessionErrorCode where
  | leaseBusy | leaseExists | leaseLimitExceeded | leaseNotFound
  | leaseSidMismatch | leaseGenerationMismatch | leaseProfileMismatch
  | leaseSequenceExhausted | leaseGenerationExhausted
  | systemPackageMissing | systemPackageBindingMissing | systemPackageBindingFailed
  | terminal (code : TerminalCode)
deriving DecidableEq

structure RuntimeSessionError where
  code : RuntimeSessionErrorCode
  message : String
deriving DecidableEq

/-- What a session's lock protects, and its terminal marker, which is atomic. The path context is the
package owner's token; the virtual machine and the host-visible texts are left out. -/
structure RuntimeSession where
  sid : String
  leaseId : String
  generation : ℕ
  profile : RuntimeLeaseProfile
  ttlSec : Option ℕ
  expiresAt : Option ℕ
  terminalState : Option TerminalCode
  closed : Bool
  lockedBy : Option ℕ
deriving DecidableEq

/-- An active lease; `session` is the address of its shared session. -/
structure RuntimeSessionEntry where
  session : ℕ
  sid : String
  leaseId : String
  generation : ℕ
  profile : RuntimeLeaseProfile
  ownerToken : Option ℕ
deriving DecidableEq

structure RuntimeSessionTombstone where
  sid : String
  leaseId : String
  generation : ℕ
  profile : RuntimeLeaseProfile
  code : TerminalCode
  retiredAt : ℕ
deriving DecidableEq

structure RuntimeSessionManagerState where
  leases : AssocMap String RuntimeSessionEntry
  sidIndex : AssocMap String String
  tombstones : AssocMap String RuntimeSessionTombstone
  generations : AssocMap String ℕ
  nextSequence : ℕ
  retiredOwnerTokens : List ℕ

/-! ## Texts and times -/

/-- `format!("rt_\x7b\x7d_\x7b\x7d", unix_time_millis(), next_sequence)`. -/
def leaseIdText (millis sequence : ℕ) : String :=
  "rt_" ++ millis.repr ++ "_" ++ sequence.repr

def terminalMessage (code : TerminalCode) (leaseId : String) : String :=
  match code with
  | .closed => "runtime session lease `" ++ leaseId ++ "` is closed"
  | .expired => "runtime session lease `" ++ leaseId ++ "` is expired"
  | .replaced => "runtime session lease `" ++ leaseId ++ "` was replaced"

def terminalError (code : TerminalCode) (leaseId sid : String) (generation : ℕ) : RuntimeSessionError :=
  ⟨.terminal code, terminalMessage code leaseId ++ " (sid `" ++ sid ++ "`, generation " ++
    generation.repr ++ ")"⟩

/-- Instants count nanoseconds. -/
def seconds (n : ℕ) : ℕ := n * 1000000000

/-- `runtime_session_expiry`, on the monotonic clock. -/
def runtimeSessionExpiry (now : ℕ) (ttlSec : Option ℕ) : Option ℕ :=
  ttlSec.map fun ttl => now + seconds ttl

def tombstoneTtl : ℕ := seconds 3600

namespace RuntimeSession

def isExpired (s : RuntimeSession) (now : ℕ) : Bool :=
  s.expiresAt.any fun expiresAt => expiresAt ≤ now

def inactiveError (s : RuntimeSession) (now : ℕ) : Option (TerminalCode × RuntimeSessionError) :=
  match s.terminalState with
  | some code => some (code, terminalError code s.leaseId s.sid s.generation)
  | none =>
    if s.closed then some (.closed, ⟨.terminal .closed, terminalMessage .closed s.leaseId⟩)
    else if s.isExpired now then
      some (.expired, ⟨.terminal .expired, terminalMessage .expired s.leaseId⟩)
    else none

def refresh (s : RuntimeSession) (now : ℕ) : RuntimeSession :=
  { s with expiresAt := runtimeSessionExpiry now s.ttlSec }

/-- A finite lease is renewed by the check that lets it run. -/
def touch (s : RuntimeSession) (now : ℕ) : RuntimeSession :=
  if s.ttlSec.isSome then s.refresh now else s

/-- `ensure_runtime_session_active`. -/
def ensureActive (s : RuntimeSession) (now : ℕ) : Except RuntimeSessionError RuntimeSession :=
  match s.inactiveError now with
  | some (_, error) => .error error
  | none => .ok (s.touch now)

end RuntimeSession

def RuntimeSessionTombstone.fromEntry (entry : RuntimeSessionEntry) (code : TerminalCode) (now : ℕ) :
    RuntimeSessionTombstone :=
  ⟨entry.sid, entry.leaseId, entry.generation, entry.profile, code, now⟩

def RuntimeSessionTombstone.asError (t : RuntimeSessionTombstone) : RuntimeSessionError :=
  terminalError t.code t.leaseId t.sid t.generation

/-! ## Checks of the host's expectations -/

structure Expected where
  sid : Option String
  generation : Option ℕ
  profile : Option RuntimeLeaseProfile
deriving DecidableEq

/-- `validate_identity_parts`. -/
def validateIdentity (leaseId sid : String) (generation : ℕ) (expected : Expected) :
    Except RuntimeSessionError Unit := do
  refuseIf (expected.sid.any (· ≠ sid)) ⟨.leaseSidMismatch, "runtime session lease `" ++ leaseId ++
    "` belongs to sid `" ++ sid ++ "`, not `" ++ expected.sid.getD "" ++ "`"⟩
  refuseIf (expected.generation.any (· ≠ generation)) ⟨.leaseGenerationMismatch,
    "runtime session lease `" ++ leaseId ++ "` generation mismatch: expected " ++
      (expected.generation.getD 0).repr ++ ", actual " ++ generation.repr⟩

def validateProfile (leaseId : String) (profile : RuntimeLeaseProfile) (expected : Expected) :
    Except RuntimeSessionError Unit :=
  match expected.profile with
  | some other => refuseIf (profile ≠ other) ⟨.leaseProfileMismatch, "runtime session lease `" ++
      leaseId ++ "` belongs to profile `" ++ profile.asStr ++ "`, not `" ++ other.asStr ++ "`"⟩
  | none => .ok ()

def validate (leaseId sid : String) (generation : ℕ) (profile : RuntimeLeaseProfile)
    (expected : Expected) : Except RuntimeSessionError Unit := do
  validateIdentity leaseId sid generation expected
  validateProfile leaseId profile expected

/-! ## Operations under the manager's lock -/

/-- How the single-assignment binding of a system package answers. -/
inductive BindingAnswer where
  | bound | missing | failed (message : String)
deriving DecidableEq

structure Package where
  ownerToken : ℕ
  binding : BindingAnswer
deriving DecidableEq

structure InsertRequest where
  profile : RuntimeLeaseProfile
  sid : String
  ttlSec : Option ℕ
  replace : Bool
  package : Option Package
deriving DecidableEq

/-- `next_runtime_session_sequence`. -/
def nextSequence (current : ℕ) : Except RuntimeSessionError ℕ :=
  okOr (checkedAdd current 1)
    ⟨.leaseSequenceExhausted, "runtime session lease sequence is exhausted"⟩

/-- `next_runtime_session_generation`. -/
def nextGeneration (current : ℕ) (sid : String) : Except RuntimeSessionError ℕ :=
  okOr (checkedAdd current 1) ⟨.leaseGenerationExhausted,
    "runtime session SID `" ++ sid ++ "` generation is exhausted"⟩

def bindPackage (request : InsertRequest) : Except RuntimeSessionError Unit :=
  match request.profile with
  | .publicLease => .ok ()
  | .systemLuaLib => do
    let package ← okOr request.package
      ⟨.systemPackageMissing, "system runtime lease is missing its trusted package context"⟩
    match package.binding with
    | .bound => .ok ()
    | .missing =>
      .error ⟨.systemPackageBindingMissing, "system runtime package is missing its lease binding"⟩
    | .failed message => .error ⟨.systemPackageBindingFailed, message⟩

namespace RuntimeSessionManagerState

def new : RuntimeSessionManagerState := ⟨∅, ∅, ∅, ∅, 0, []⟩

/-- The maps after an active lease left them. The session's terminal marker is set beside. -/
def detach (st : RuntimeSessionManagerState) (id : String) (entry : RuntimeSessionEntry)
    (code : TerminalCode) (now : ℕ) : RuntimeSessionManagerState where
  leases := st.leases.erase id
  sidIndex := if st.sidIndex.lookup entry.sid = some id then st.sidIndex.erase entry.sid else st.sidIndex
  tombstones := st.tombstones.insert id (.fromEntry entry code now)
  generations := st.generations
  nextSequence := st.nextSequence
  retiredOwnerTokens := st.retiredOwnerTokens ++ entry.ownerToken.toList

/-- The tombstones that are young enough to stay, seen from the start of the pruning. -/
def retainTombstones (st : RuntimeSessionManagerState) (start : ℕ) : RuntimeSessionManagerState :=
  { st with tombstones := st.tombstones.retain fun _ t => start < t.retiredAt + tombstoneTtl }

/-- The identities of the active leases that `list` shows, before they are sorted. -/
def listed (st : RuntimeSessionManagerState) (sid : Option String)
    (profile : Option RuntimeLeaseProfile) : List RuntimeSessionEntry :=
  st.leases.values.filter fun entry => sid.all (entry.sid = ·) && profile.all (entry.profile = ·)

end RuntimeSessionManagerState

/-- `compare_runtime_session_entries`, as an order. -/
def entryLe (left right : RuntimeSessionEntry) : Bool :=
  left.sid < right.sid || left.sid = right.sid &&
    (left.generation < right.generation || left.generation = right.generation &&
      (left.leaseId < right.leaseId || left.leaseId = right.leaseId))

end LuaSkills.RuntimeLease
