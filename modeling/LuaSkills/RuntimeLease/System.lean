import LuaSkills.RuntimeLease.Manager

/-!
# Calls on one manager

Any number of callers create, look up, evaluate, list and close leases. A call holds the manager's lock
from its pruning to its last section; evaluations run outside it, on a session handle that `get` gave
out earlier. Every read of the monotonic clock is a read of `now`, which may advance between any two
sections.
-/

namespace LuaSkills.RuntimeLease

/-- What a caller wants with the session that `get` returned. -/
inductive Use where
  | eval | status
deriving DecidableEq

inductive Call where
  | insert (request : InsertRequest)
  | get (use : Use) (leaseId : String) (expected : Expected)
  | list (sid : Option String) (profile : Option RuntimeLeaseProfile)
  | close (leaseId : String) (expected : Expected)
deriving DecidableEq

/-- How far a call under the manager's lock has come: the leases it has yet to look at and the expired
ones it has yet to retire, the body, the choice that `insert` made, or the mark that `close` set. -/
inductive Phase where
  | pruning (todo expired : List String)
  | body
  | chosen (replacement : Option String)
  | closing (leaseId : String)
deriving DecidableEq

/-- The call that holds the manager's lock. `start` is the time its pruning began; `before` is the
state it found, which no section reads. -/
structure Section where
  task : ℕ
  call : Call
  phase : Phase
  start : ℕ
  before : RuntimeSessionManagerState

/-- What a caller is about. `calling` covers the calls that bring nothing of their own. -/
inductive Task where
  | creating (request : InsertRequest)
  | calling
  | handle (use : Use) (session : ℕ)
  | locked (use : Use) (session : ℕ)
  | evaluating (session : ℕ)
deriving DecidableEq

/-- `lapsed` tells whether the session had expired when its lease was retired. -/
inductive Event where
  | inserted (leaseId sid : String) (generation : ℕ) (ownerToken : Option ℕ)
  | retired (leaseId : String) (code : TerminalCode) (ownerToken : Option ℕ) (lapsed : Bool)
deriving DecidableEq

structure World where
  now : ℕ
  state : RuntimeSessionManagerState
  sessions : AssocMap ℕ RuntimeSession
  nextAddress : ℕ
  nextOwnerToken : ℕ
  lock : Option Section
  tasks : AssocMap ℕ Task
  handedOut : List ℕ
  log : List Event

namespace World

def new (nextOwnerToken : ℕ) : World := ⟨0, .new, ∅, 0, nextOwnerToken, none, ∅, [], []⟩

def record (w : World) (e : Event) : World := { w with log := w.log ++ [e] }

def setTask (w : World) (t : ℕ) (task : Task) : World := { w with tasks := w.tasks.insert t task }

def endTask (w : World) (t : ℕ) : World := { w with tasks := w.tasks.erase t }

def setSession (w : World) (session : ℕ) (f : RuntimeSession → RuntimeSession) : World :=
  { w with sessions := w.sessions.adjust session f }

def setPhase (w : World) (sec : Section) (phase : Phase) : World :=
  { w with lock := some { sec with phase } }

def unlock (w : World) : World := { w with lock := none }

def lapsed (w : World) (entry : RuntimeSessionEntry) : Bool :=
  (w.sessions.lookup entry.session).any (·.isExpired w.now)

/-- `retire_active_lease_locked`. -/
def retire (w : World) (id : String) (code : TerminalCode) : Option World := do
  let entry ← w.state.leases.lookup id
  return ({ w.setSession entry.session fun s => { s with terminalState := some code } with
    state := w.state.detach id entry code w.now }).record
      (.retired id code entry.ownerToken (w.lapsed entry))

/-! ## Pruning -/

/-- The `should_remove` of one lease: a session whose lock is taken is passed over. -/
def shouldRemove (w : World) (id : String) : Bool :=
  (w.state.leases.lookup id).any fun entry =>
    (w.sessions.lookup entry.session).any fun s =>
      s.lockedBy.isNone && (s.expiresAt.isSome && s.isExpired w.now)

def prune (w : World) (sec : Section) : Option World :=
  match sec.phase with
  | .pruning (id :: todo) expired =>
    some (w.setPhase sec (.pruning todo (if w.shouldRemove id then expired ++ [id] else expired)))
  | .pruning [] (id :: expired) =>
    some (((w.retire id .expired).getD w).setPhase sec (.pruning [] expired))
  | .pruning [] [] => some ({ w with state := w.state.retainTombstones sec.start }.setPhase sec .body)
  | _ => none

/-! ## Insertion -/

/-- The checks of `insert` on the current lease of the identifier. The guard of its session is dropped
at the end of this section, also when the lease was chosen for replacement. -/
def select (w : World) (request : InsertRequest) : Except RuntimeSessionError (World × Option String) :=
  match w.state.sidIndex.lookup request.sid with
  | none => .ok (w, none)
  | some existing =>
    match (w.state.leases.lookup existing).bind fun entry => w.sessions.lookup entry.session with
    | none => .ok ({ w with state := { w.state with sidIndex := w.state.sidIndex.erase request.sid } }, none)
    | some s =>
      if s.lockedBy.isSome then
        if request.replace then .error ⟨.leaseBusy, "runtime session SID `" ++ request.sid ++
          "` cannot replace busy lease `" ++ existing ++ "`"⟩
        else .error ⟨.leaseExists, "runtime session SID `" ++ request.sid ++ "` already has lease `" ++
          existing ++ "`"⟩
      else
        match s.inactiveError w.now with
        | some (code, _) => .ok ((w.retire existing code).getD w, none)
        | none =>
          if request.replace then .ok (w, some existing)
          else .error ⟨.leaseExists, "runtime session SID `" ++ request.sid ++
            "` already has lease `" ++ existing ++ "`"⟩

/-- The identity of the lease to insert, once every check has passed. -/
def prepareLease (w : World) (request : InsertRequest) (replacement : Option String) :
    Except RuntimeSessionError (ℕ × ℕ) := do
  refuseIf (w.state.leases.size ≥ maxLeases ∧ replacement = none)
    ⟨.leaseLimitExceeded, "runtime session lease limit exceeded"⟩
  let sequence ← nextSequence w.state.nextSequence
  let generation ← nextGeneration ((w.state.generations.lookup request.sid).getD 0) request.sid
  bindPackage request
  return (sequence, generation)

def newSession (w : World) (request : InsertRequest) (leaseId : String) (generation : ℕ) :
    RuntimeSession :=
  let ttlSec := request.ttlSec.map fun ttl => max 1 (min ttl 3600)
  ⟨request.sid, leaseId, generation, request.profile, ttlSec, runtimeSessionExpiry w.now ttlSec, none, false,
    none⟩

def newEntry (w : World) (request : InsertRequest) (leaseId : String) (generation : ℕ) :
    RuntimeSessionEntry :=
  ⟨w.nextAddress, request.sid, leaseId, generation, request.profile, request.package.map Package.ownerToken⟩

/-- The counters, before an old lease is detached. -/
def advance (w : World) (sid : String) (sequence generation : ℕ) : World :=
  { w with state := { w.state with
    nextSequence := sequence, generations := w.state.generations.insert sid generation } }

def retireReplaced (w : World) : Option String → Option World
  | some existing => w.retire existing .replaced
  | none => some w

/-- The new lease enters both maps. -/
def publish (w : World) (request : InsertRequest) (leaseId : String) (generation : ℕ) : World :=
  { w with
    sessions := w.sessions.insert w.nextAddress (w.newSession request leaseId generation)
    nextAddress := w.nextAddress + 1
    state := { w.state with
      leases := w.state.leases.insert leaseId (w.newEntry request leaseId generation)
      sidIndex := w.state.sidIndex.insert request.sid leaseId } }.record
    (.inserted leaseId request.sid generation (request.package.map Package.ownerToken))

/-- The locked commit of `insert`. It has no value when the chosen lease is gone, where the source's
`expect` would panic. -/
def commit (w : World) (request : InsertRequest) (replacement : Option String) (millis : ℕ) :
    Option (Except RuntimeSessionError World) :=
  match w.prepareLease request replacement with
  | .error error => some (.error error)
  | .ok (sequence, generation) => do
    let w ← (w.advance request.sid sequence generation).retireReplaced replacement
    return .ok (w.publish request (leaseIdText millis sequence) generation)

/-! ## Lookup and close -/

/-- What a call says about a lease that is not active. -/
def absentError (w : World) (id : String) (expected : Expected) : RuntimeSessionError :=
  match w.state.tombstones.lookup id with
  | some t =>
    match validate t.leaseId t.sid t.generation t.profile expected with
    | .ok () => t.asError
    | .error error => error
  | none => ⟨.leaseNotFound, "runtime session lease `" ++ id ++ "` was not found"⟩

/-- The session behind an active lease, if its lock is free. -/
def tryLockSession (w : World) (id : String) (entry : RuntimeSessionEntry) :
    Except RuntimeSessionError RuntimeSession := do
  let s ← okOr (w.sessions.lookup entry.session) ⟨.leaseBusy, "runtime session lease `" ++ id ++ "` is busy"⟩
  refuseIf (s.lockedBy.isSome = true) ⟨.leaseBusy, "runtime session lease `" ++ id ++ "` is busy"⟩
  return s

/-- The body of `get`: the address of the session. -/
def get (w : World) (id : String) (expected : Expected) : Except RuntimeSessionError ℕ :=
  match w.state.leases.lookup id with
  | some entry => do
    let s ← w.tryLockSession id entry
    validate s.leaseId s.sid s.generation s.profile expected
    return entry.session
  | none => .error (w.absentError id expected)

/-- The body of `close`, up to the drop of the session's guard. -/
def closeMark (w : World) (id : String) (expected : Expected) : Except RuntimeSessionError World :=
  match w.state.leases.lookup id with
  | some entry => do
    let s ← w.tryLockSession id entry
    validate s.leaseId s.sid s.generation s.profile expected
    return w.setSession entry.session fun s => { s with terminalState := some .closed, closed := true }
  | none => .error (w.absentError id expected)

/-! ## Steps -/

inductive Action where
  | tick (n : ℕ)
  | foreignToken
  | prepare (t : ℕ) (profile : RuntimeLeaseProfile) (sid : String) (ttlSec : Option ℕ) (replace : Bool)
      (binding : Option BindingAnswer)
  | begin (t : ℕ) (call : Call) (order : List String)
  | prune
  | select
  | commit (millis : ℕ)
  | get
  | list
  | closeMark
  | closeRetire
  | takeTokens
  | lockSession (t : ℕ)
  | busy (t : ℕ)
  | check (t : ℕ)
  | finish (t : ℕ) (ok : Bool)
deriving DecidableEq

/-- The owner token of the package that a create call builds before it inserts. -/
def prepare (w : World) (t : ℕ) (profile : RuntimeLeaseProfile) (sid : String) (ttlSec : Option ℕ)
    (replace : Bool) (binding : Option BindingAnswer) : Option World :=
  match binding with
  | none => some (w.setTask t (.creating ⟨profile, sid, ttlSec, replace, none⟩))
  | some binding => do
    let token ← checkedAdd w.nextOwnerToken 1
    return { w with nextOwnerToken := token }.setTask t
      (.creating ⟨profile, sid, ttlSec, replace, some ⟨token, binding⟩⟩)

/-- What the caller of a call is about meanwhile; an `insert` comes with what its caller prepared. -/
def callTask : Call → Task
  | .insert request => .creating request
  | _ => .calling

/-- A call takes the manager's lock and starts to prune. -/
def begin (w : World) (t : ℕ) (call : Call) (order : List String) : World :=
  { w with lock := some ⟨t, call, .pruning order [], w.now, w.state⟩ }

def mayCall (w : World) (t : ℕ) : Call → Bool
  | .insert request => w.tasks.lookup t = some (.creating request)
  | _ => t ∉ w.tasks

/-- The end of an evaluation; a successful one renews the lease. -/
def finish (w : World) (t session : ℕ) (ok : Bool) : World :=
  (w.setSession session fun s =>
    { (if ok then s.refresh w.now else s) with lockedBy := none }).endTask t

/-- The check of a caller that holds a session's lock. A status call ends with it. -/
def check (w : World) (t : ℕ) (use : Use) (session : ℕ) : Option World := do
  let s ← w.sessions.lookup session
  match use, s.ensureActive w.now with
  | .eval, .ok _ => return (w.setSession session (·.touch w.now)).setTask t (.evaluating session)
  | _, _ => return (w.setSession session fun s => { s with lockedBy := none }).endTask t

def step (w : World) (a : Action) : Option World :=
  match a, w.lock with
  | .tick n, _ => some { w with now := w.now + n }
  | .foreignToken, _ => (checkedAdd w.nextOwnerToken 1).map fun token => { w with nextOwnerToken := token }
  | .prepare t profile sid ttlSec replace binding, _ =>
    if t ∈ w.tasks then none else w.prepare t profile sid ttlSec replace binding
  | .begin t call order, none =>
    if w.mayCall t call && order.isPerm w.state.leases.keys then
      some ((w.begin t call order).setTask t (callTask call))
    else none
  | .prune, some sec => w.prune sec
  | .select, some ⟨t, .insert request, .body, start, before⟩ =>
    match w.select request with
    | .ok (w', replacement) => some (w'.setPhase ⟨t, .insert request, .body, start, before⟩ (.chosen replacement))
    | .error _ => some (w.unlock.endTask t)
  | .commit millis, some ⟨t, .insert request, .chosen replacement, _, _⟩ =>
    (w.commit request replacement millis).map fun r => (r.toOption.getD w).unlock.endTask t
  | .get, some ⟨t, .get use id expected, .body, _, _⟩ =>
    match w.get id expected with
    | .ok session => some (w.unlock.setTask t (.handle use session))
    | .error _ => some (w.unlock.endTask t)
  | .list, some ⟨t, .list _ _, .body, _, _⟩ => some (w.unlock.endTask t)
  | .closeMark, some ⟨t, .close id expected, .body, start, before⟩ =>
    match w.closeMark id expected with
    | .ok w' => some (w'.setPhase ⟨t, .close id expected, .body, start, before⟩ (.closing id))
    | .error _ => some (w.unlock.endTask t)
  | .closeRetire, some ⟨t, .close _ _, .closing id, _, _⟩ =>
    (w.retire id .closed).map fun w' => w'.unlock.endTask t
  | .takeTokens, none =>
    some { w with
      state := { w.state with retiredOwnerTokens := [] }
      handedOut := w.handedOut ++ w.state.retiredOwnerTokens }
  | .lockSession t, _ =>
    match w.tasks.lookup t with
    | some (.handle use session) =>
      if (w.sessions.lookup session).any (·.lockedBy.isNone) then
        some ((w.setSession session fun s => { s with lockedBy := some t }).setTask t (.locked use session))
      else some (w.endTask t)
    | _ => none
  | .busy t, _ =>
    -- The lock may also be held for a moment by a call under the manager's lock.
    match w.tasks.lookup t with
    | some (.handle _ _) => some (w.endTask t)
    | _ => none
  | .check t, _ =>
    match w.tasks.lookup t with
    | some (.locked use session) => w.check t use session
    | _ => none
  | .finish t ok, _ =>
    match w.tasks.lookup t with
    | some (.evaluating session) => some (w.finish t session ok)
    | _ => none
  | _, _ => none

def run (w : World) : List Action → Option World
  | [] => some w
  | a :: as => (w.step a).bind fun w' => w'.run as

end World

end LuaSkills.RuntimeLease
