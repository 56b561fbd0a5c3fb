import LuaSkills.RuntimeLease.Execution

/-!
# The listed expiry of a lease

`list` shows a snapshot that is kept in the manager's entry. An evaluation captures the snapshot while
it holds the session's lock and installs it later, under the manager's lock. This layer adds the
snapshots, the captured ones on their way, and the expiry that hosts see, which is read from the wall
clock; captures are numbered in the order in which they hold the session's lock.
-/

namespace LuaSkills.RuntimeLease

/-- `status_payload`, without the texts of the path context. -/
structure StatusPayload where
  ok : Bool
  sid : String
  leaseId : String
  generation : ℕ
  profile : RuntimeLeaseProfile
  ttlSec : Option ℕ
  expiresAtUnixMs : Option ℕ
  closed : Bool
  expired : Bool
deriving DecidableEq

/-- `runtime_session_expiry`, on the wall clock. -/
def runtimeSessionExpiryUnixMs (millis : ℕ) (ttlSec : Option ℕ) : Option ℕ :=
  ttlSec.map fun ttl => millis + ttl * 1000

def RuntimeSession.statusPayload (s : RuntimeSession) (expiresAtUnixMs : Option ℕ) (now : ℕ) :
    StatusPayload where
  ok := s.terminalState.isNone && !s.closed && !s.isExpired now
  sid := s.sid
  leaseId := s.leaseId
  generation := s.generation
  profile := s.profile
  ttlSec := s.ttlSec
  expiresAtUnixMs := expiresAtUnixMs
  closed := s.closed
  expired := s.isExpired now

/-- A snapshot, the lease it was taken of and its number. -/
structure Captured where
  leaseId : String
  order : ℕ
  payload : StatusPayload
deriving DecidableEq

structure Listing where
  world : World
  expiries : AssocMap ℕ (Option ℕ)
  snapshots : AssocMap String Captured
  pending : AssocMap ℕ Captured
  captures : ℕ

namespace Listing

def new (nextOwnerToken : ℕ) : Listing := ⟨.new nextOwnerToken, ∅, ∅, ∅, 0⟩

/-- `expires_at_unix_ms` of the session at an address. -/
def expiry (l : Listing) (session : ℕ) : Option ℕ := (l.expiries.lookup session).getD none

/-- What `status` reports of a session. -/
def status (l : Listing) (session : ℕ) (s : RuntimeSession) : StatusPayload :=
  s.statusPayload (l.expiry session) l.world.now

def listPayload (l : Listing) (entry : RuntimeSessionEntry) : Option StatusPayload :=
  (l.snapshots.lookup entry.leaseId).map fun c =>
    { c.payload with
      sid := entry.sid
      leaseId := entry.leaseId
      generation := entry.generation
      profile := entry.profile }

/-- What `list` returns once expired leases are retired. -/
def list (l : Listing) (sid : Option String) (profile : Option RuntimeLeaseProfile) : List StatusPayload :=
  ((l.world.state.listed sid profile).mergeSort entryLe).filterMap l.listPayload

inductive Act where
  /-- A step of the manager's callers, while the wall clock shows `millis`. -/
  | base (a : World.Action) (millis : ℕ)
  /-- `update_active_snapshot`, called by the evaluation that took this snapshot. -/
  | install (order : ℕ)
deriving DecidableEq

/-- The first snapshot of a lease that was just inserted at `session`, if one was. -/
def published (l : Listing) (session millis : ℕ) : Listing :=
  match l.world.sessions.lookup session with
  | none => l
  | some s =>
    let expiresAt := runtimeSessionExpiryUnixMs millis s.ttlSec
    { l with
      expiries := l.expiries.insert session expiresAt
      snapshots := l.snapshots.insert s.leaseId
        ⟨s.leaseId, l.captures, s.statusPayload expiresAt l.world.now⟩
      captures := l.captures + 1 }

/-- The check that lets an evaluation run renews a finite lease. -/
def touched (l : Listing) (session millis : ℕ) : Listing :=
  match l.world.sessions.lookup session with
  | none => l
  | some s =>
    if s.ttlSec.isSome then
      { l with expiries := l.expiries.insert session (runtimeSessionExpiryUnixMs millis s.ttlSec) }
    else l

/-- The end of an evaluation: its snapshot is taken before the session's lock is dropped. -/
def evaluated (l : Listing) (session millis : ℕ) (ok : Bool) : Listing :=
  match l.world.sessions.lookup session with
  | none => l
  | some s =>
    let expiresAt := if ok then runtimeSessionExpiryUnixMs millis s.ttlSec else l.expiry session
    { l with
      expiries := l.expiries.insert session expiresAt
      pending := l.pending.insert l.captures
        ⟨s.leaseId, l.captures, s.statusPayload expiresAt l.world.now⟩
      captures := l.captures + 1 }

def install (l : Listing) (order : ℕ) : Option Listing :=
  match l.world.lock, l.pending.lookup order with
  | none, some c =>
    some { l with
      pending := l.pending.erase order
      snapshots := if c.leaseId ∈ l.world.state.leases then l.snapshots.insert c.leaseId c else l.snapshots }
  | _, _ => none

def step (l : Listing) : Act → Option Listing
  | .install order => l.install order
  | .base a millis => do
    let w ← l.world.step a
    let after := { l with world := w }
    match a with
    | .commit _ => return after.published l.world.nextAddress millis
    | .check t =>
      match w.tasks.lookup t with
      | some (.evaluating session) => return after.touched session millis
      | _ => return after
    | .finish t ok =>
      match l.world.tasks.lookup t with
      | some (.evaluating session) => return after.evaluated session millis ok
      | _ => return after
    | _ => return after

def run (l : Listing) : List Act → Option Listing
  | [] => some l
  | a :: as => (l.step a).bind fun l' => l'.run as

end Listing

end LuaSkills.RuntimeLease
