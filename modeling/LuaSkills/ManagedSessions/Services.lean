import LuaSkills.Data.AssocMap
import LuaSkills.Data.Fallible

/-!
# Managed runtime services

The sessions of one engine, the evaluation transactions they are reserved in, the teardowns that retire
them and the registry of their event tokens. A thread holds the lock of the state, of the event center, of
the retry center or of a cleanup handle for one section at a time; between two sections anything may
happen. Whether a process can be killed is part of the action.
-/

namespace LuaSkills.ManagedSessions

structure ManagedSessionEventToken where
  systemLeaseId : String
  sid : String
  generation : ℕ
  managedSessionId : ℕ
deriving DecidableEq

structure EventIdentity where
  leaseId : String
  sid : String
  generation : ℕ
deriving DecidableEq

def EventIdentity.token (identity : EventIdentity) (s : ℕ) : ManagedSessionEventToken :=
  ⟨identity.leaseId, identity.sid, identity.generation, s⟩

/-- `ManagedRuntimeSessionRecord`; `process` and `cleanup` tell whether the core and the handle are there. -/
structure SessionRecord where
  ownerToken : ℕ
  process : Bool
  cleanup : Bool
  eventToken : Option ManagedSessionEventToken
deriving DecidableEq

structure TransactionRecord where
  ownerToken : ℕ
  sessionIds : List ℕ
deriving DecidableEq

structure TransactionContext where
  transactionId : ℕ
  ownerToken : ℕ
deriving DecidableEq

inductive RetryTarget where
  | owner (ownerToken : ℕ)
  | session (session : ℕ)
deriving DecidableEq

/-- `ManagedProcessSessionCleanupHandle`: `pending` until the callback is taken. -/
structure CleanupHandle where
  pending : Bool
  finished : Bool
deriving DecidableEq

/-- How far `run_once` has come: the language callback runs first, then the session is unregistered. -/
inductive CleanupPhase where
  | take
  | callback
  | token (token : Option ManagedSessionEventToken)
  | finish
deriving DecidableEq

/-- How far `teardown_records` has come with its first record, or that it has yet to queue a session that
it published again. -/
inductive TeardownPhase where
  | token
  | kill
  | cleaning (phase : CleanupPhase)
  | check
  | judge
  | settle (ok retry : Bool)
  | enqueue (session : ℕ)
deriving DecidableEq

/-- One call of `teardown_records`. `target` is what its caller queues again after a failure; `worker`
tells whether the caller is the retry worker. -/
structure Teardown where
  target : Option RetryTarget
  worker : Bool
  records : List (ℕ × SessionRecord)
  phase : TeardownPhase
  failed : Bool
deriving DecidableEq

/-- What a thread is about. A reservation is `reserving` until its token is registered, and `reservation`
when it was handed out. -/
inductive Task where
  | transaction (context : TransactionContext)
  | reserving (session : ℕ) (token : Option ManagedSessionEventToken)
  | registered (session : ℕ) (token : Option ManagedSessionEventToken)
  | reservation (session : ℕ)
  | removing (session : ℕ) (orphan : Bool)
  | dropping (session : ℕ) (token : Option ManagedSessionEventToken) (orphan : Bool)
  | orphan (session : ℕ) (phase : Option CleanupPhase)
  | userdata (session : ℕ) (phase : Option CleanupPhase) (dropped : Bool)
  | retrying (target : RetryTarget)
  | tearing (teardown : Teardown)
  | checking (ownerToken : ℕ) (worker : Bool)
  | enqueueing (target : RetryTarget) (worker : Bool)
deriving DecidableEq

/-- `killed` tells that the process is known to be gone. A session is `released` when it leaves the
transactions. -/
inductive Event where
  | reserved (session : ℕ) (transactionId : Option ℕ)
  | refused (session : ℕ)
  | activated (session : ℕ)
  | killed (session : ℕ)
  | ran (session : ℕ)
  | released (session : ℕ)
deriving DecidableEq

/-- `limit` is `persistent_session_limit_per_engine`, which also bounds the event center. The set of queued
targets is that of the members of `targets`. `failed` has the registered sessions whose last teardown
failed; no section reads it. -/
structure World where
  limit : ℕ
  nextSessionId : ℕ
  nextTransactionId : ℕ
  sessions : AssocMap ℕ SessionRecord
  retiringSessions : AssocMap ℕ ℕ
  transactions : AssocMap ℕ TransactionRecord
  registeredSessions : List ManagedSessionEventToken
  targets : List RetryTarget
  handles : AssocMap ℕ CleanupHandle
  tasks : AssocMap ℕ Task
  failed : List ℕ
  log : List Event

inductive Action where
  | begin (task ownerToken : ℕ)
  | commit (task : ℕ)
  | rollback (task : ℕ)
  | reserve (task ownerToken : ℕ) (transaction : Option TransactionContext) (identity : Option EventIdentity)
  | activate (task : ℕ)
  | abandon (task : ℕ)
  | kill (task : ℕ) (ok : Bool)
  | close (task : ℕ) (ok : Bool)
  | retire (task ownerToken : ℕ) (order : List ℕ)
  | pop (task : ℕ)
  | retry (task : ℕ) (order : List ℕ)
  | advance (task : ℕ) (ok : Bool)
deriving DecidableEq

def Task.worker : Task → Bool
  | .retrying _ => true
  | .tearing job => job.worker
  | .checking _ worker | .enqueueing _ worker => worker
  | _ => false

namespace World

def new (limit : ℕ) : World := ⟨limit, 0, 0, ∅, ∅, ∅, [], [], ∅, ∅, [], []⟩

def setTask (w : World) (t : ℕ) (task : Task) : World := { w with tasks := w.tasks.insert t task }

def endTask (w : World) (t : ℕ) : World := { w with tasks := w.tasks.erase t }

def record (w : World) (e : Event) : World := { w with log := w.log ++ [e] }

/-! ## The event center and the retry center -/

/-- `unregister_session` of the event center. -/
def unregisterToken (w : World) : Option ManagedSessionEventToken → World
  | some token => { w with registeredSessions := w.registeredSessions.erase token }
  | none => w

/-- `register_session` of the event center. -/
def registerToken (w : World) (token : ManagedSessionEventToken) : Except String World :=
  if token ∈ w.registeredSessions then .error "managed session event token is already registered"
  else if w.registeredSessions.length ≥ w.limit then
    .error ("managed session event session limit exceeded; max_sessions=" ++ toString w.limit)
  else .ok { w with registeredSessions := w.registeredSessions ++ [token] }

def enqueueTarget (w : World) (target : RetryTarget) : World :=
  if target ∈ w.targets then w else { w with targets := w.targets ++ [target] }

/-! ## Sections of the state -/

def forget (w : World) (ids : List ℕ) : World :=
  { w with
    transactions := w.transactions.mapValues fun _ r =>
      { r with sessionIds := r.sessionIds.filter fun id => id ∉ ids }
    log := w.log ++ ids.map .released }

def detachSession (w : World) (s : ℕ) : World × Option (ℕ × SessionRecord) :=
  match w.sessions.lookup s with
  | some r =>
    ({ w with
      sessions := w.sessions.erase s
      retiringSessions := w.retiringSessions.insert s r.ownerToken
      failed := w.failed.filter (· ≠ s) }, some (s, r))
  | none => (w, none)

/-- Sessions detached one after the other. -/
def detachSessions (w : World) : List ℕ → World × List (ℕ × SessionRecord)
  | [] => (w, [])
  | s :: ids =>
    let (w, record) := w.detachSession s
    let (w, records) := w.detachSessions ids
    (w, record.toList ++ records)

/-- The state's section of `unregister_session`; the token of the removed record is left to unregister. -/
def unregisterSession (w : World) (s : ℕ) : World × Option ManagedSessionEventToken :=
  let w' := w.forget [s]
  ({ w' with sessions := w.sessions.erase s, failed := w.failed.filter (· ≠ s) },
    (w.sessions.lookup s).bind (·.eventToken))

def ownedBy (w : World) (owner : ℕ) : List ℕ :=
  w.sessions.keys.filter fun s => (w.sessions.lookup s).any (·.ownerToken = owner)

/-! ## Transactions -/

def begin (w : World) (t owner : ℕ) : Option World :=
  if t ∈ w.tasks then none
  else
    match checkedAdd w.nextTransactionId 1 with
    | some id => some ({ w with
        nextTransactionId := id
        transactions := w.transactions.insert id ⟨owner, []⟩ }.setTask t (.transaction ⟨id, owner⟩))
    | none => some w

/-- The commit of a guard. When it is refused, the rollback that follows finds no transaction. -/
def commit (w : World) (t : ℕ) : Option World :=
  match w.tasks.lookup t with
  | some (.transaction context) =>
    some ({ w with transactions := w.transactions.erase context.transactionId }.endTask t)
  | _ => none

def rollback (w : World) (t : ℕ) : Option World :=
  match w.tasks.lookup t with
  | some (.transaction context) =>
    match w.transactions.lookup context.transactionId with
    | none => some (w.endTask t)
    | some r =>
      if r.ownerToken ≠ context.ownerToken then some (w.endTask t)
      else
        let (w, records) := { w with
          transactions := w.transactions.erase context.transactionId }.detachSessions r.sessionIds
        some (w.setTask t (.tearing ⟨none, false, records, .token, false⟩))
  | _ => none

/-! ## Reservation -/

def checkTransaction (w : World) (owner : ℕ) : Option TransactionContext → Except String Unit
  | none => .ok ()
  | some context => do
    let r ← okOr (w.transactions.lookup context.transactionId)
      "managed runtime resource transaction is not active"
    refuseIf (r.ownerToken ≠ owner ∨ context.ownerToken ≠ owner)
      "managed runtime resource transaction owner mismatch"

/-- The admission of `reserve_session`: the new session's number. -/
def admission (w : World) (owner : ℕ) (transaction : Option TransactionContext) : Except String ℕ := do
  refuseIf (w.sessions.size + w.retiringSessions.size ≥ w.limit)
    ("managed runtime session limit exceeded: " ++ toString w.limit)
  w.checkTransaction owner transaction
  okOr (checkedAdd w.nextSessionId 1) "managed runtime session identifier space is exhausted"

def join (w : World) (s : ℕ) : Option TransactionContext → World
  | some context => { w with
      transactions := w.transactions.adjust context.transactionId fun r =>
        { r with sessionIds := r.sessionIds ++ [s] } }
  | none => w

def reserve (w : World) (t owner : ℕ) (transaction : Option TransactionContext)
    (identity : Option EventIdentity) : Option World :=
  if t ∈ w.tasks then none
  else
    match w.admission owner transaction with
    | .error _ => some w
    | .ok s =>
      some ((({ w with
        nextSessionId := s
        sessions := w.sessions.insert s ⟨owner, false, false, none⟩ }.join s transaction).record
          (.reserved s (transaction.map TransactionContext.transactionId))).setTask t
            (.reserving s (identity.map (EventIdentity.token · s))))

/-- The registration of the token; a refusal removes the record again. -/
def register (w : World) (t s : ℕ) : Option ManagedSessionEventToken → World
  | none => w.setTask t (.registered s none)
  | some token =>
    match w.registerToken token with
    | .ok w => w.setTask t (.registered s (some token))
    | .error _ => (w.record (.refused s)).setTask t (.removing s false)

/-- The record gets its token, if it is still there. -/
def attach (w : World) (t s : ℕ) (token : Option ManagedSessionEventToken) : World :=
  match w.sessions.lookup s with
  | some r => { w with sessions := w.sessions.insert s { r with eventToken := token } }.setTask t (.reservation s)
  | none => (w.unregisterToken token).endTask t

/-- `activate`: the handle is made, and the record gets core and handle. -/
def activate (w : World) (t : ℕ) : Option World :=
  match w.tasks.lookup t with
  | some (.reservation s) =>
    let w := { w with handles := w.handles.insert s ⟨true, false⟩ }
    match w.sessions.lookup s with
    | some r =>
      if r.process then some (w.setTask t (.removing s true))
      else some (({ w with
        sessions := w.sessions.insert s { r with process := true, cleanup := true } }.record
          (.activated s)).setTask t (.userdata s none false))
    | none => some (w.setTask t (.removing s true))
  | _ => none

/-- The drop of a reservation that was not activated. -/
def abandon (w : World) (t : ℕ) : Option World :=
  match w.tasks.lookup t with
  | some (.reservation s) => some (w.setTask t (.removing s false))
  | _ => none

/-! ## Cleanup handles -/

/-- One section of `run_once`, and the phase after it. -/
def clean (w : World) (s : ℕ) : CleanupPhase → World × Option CleanupPhase
  | .take =>
    match w.handles.lookup s with
    | some ⟨true, finished⟩ =>
      ({ w with handles := w.handles.insert s ⟨false, finished⟩ }.record (.ran s), some .callback)
    | _ => (w, none)
  | .callback =>
    let (w, token) := w.unregisterSession s
    (w, some (.token token))
  | .token token => (w.unregisterToken token, some .finish)
  | .finish => ({ w with handles := w.handles.adjust s fun h => { h with finished := true } }, none)

def isFinished (w : World) (s : ℕ) : Bool := (w.handles.lookup s).any (·.finished)

def isPending (w : World) (s : ℕ) : Bool := (w.handles.lookup s).any (·.pending)

/-! ## Userdata -/

def kill (w : World) (t : ℕ) (ok : Bool) : Option World :=
  match w.tasks.lookup t with
  | some (.userdata s none false) =>
    if ok then some ((w.record (.killed s)).setTask t (.userdata s (some .take) false)) else some w
  | _ => none

def close (w : World) (t : ℕ) (ok : Bool) : Option World :=
  match w.tasks.lookup t with
  | some (.userdata s none false) =>
    if ok then some ((w.record (.killed s)).setTask t (.userdata s (some .take) true))
    else if w.isPending s then some (w.setTask t (.enqueueing (.session s) false))
    else some (w.endTask t)
  | _ => none

/-! ## Teardown -/

/-- The section of `retry_retired_owner` that detaches the sessions of the owner. The map that it goes
through has no order of its own. -/
def detachOwner (w : World) (owner : ℕ) (order : List ℕ) : Option (World × List (ℕ × SessionRecord)) :=
  if order.Perm (w.ownedBy owner) then some ((w.forget order).detachSessions order) else none

def retire (w : World) (t owner : ℕ) (order : List ℕ) : Option World :=
  if t ∈ w.tasks then none
  else (w.detachOwner owner order).map fun (w, records) =>
    w.setTask t (.tearing ⟨some (.owner owner), false, records, .token, false⟩)

/-- `wait_next` of the one retry worker. -/
def pop (w : World) (t : ℕ) : Option World :=
  if t ∈ w.tasks ∨ w.tasks.countBy Task.worker ≠ 0 then none
  else
    match w.targets with
    | target :: rest => some ({ w with targets := rest }.setTask t (.retrying target))
    | [] => none

def retry (w : World) (t : ℕ) (order : List ℕ) : Option World :=
  match w.tasks.lookup t with
  | some (.retrying (.owner owner)) =>
    (w.detachOwner owner order).map fun (w, records) =>
      w.setTask t (.tearing ⟨some (.owner owner), true, records, .token, false⟩)
  | some (.retrying (.session s)) =>
    if s ∈ w.retiringSessions then some (w.setTask t (.enqueueing (.session s) true))
    else
      match w.detachSession s with
      | (w, some record) =>
        some (w.setTask t (.tearing ⟨some (.session s), true, [record], .token, false⟩))
      | (w, none) => some (w.endTask t)
  | _ => none

/-- The last section on a record: a failure is published again. -/
def settle (w : World) (s : ℕ) (r : SessionRecord) (retry : Bool) : World :=
  let w := if retry then { w with sessions := w.sessions.insert s r, failed := s :: w.failed } else w
  { w with retiringSessions := w.retiringSessions.erase s }

/-- One section of `teardown_records`. -/
def tear (w : World) (t : ℕ) (job : Teardown) (ok : Bool) : World :=
  match job.phase with
  | .enqueue s => (w.enqueueTarget (.session s)).setTask t (.tearing { job with phase := .token })
  | phase =>
    match job.records with
    | [] =>
      match job.failed, job.target with
      | true, some target => w.setTask t (.enqueueing target job.worker)
      | false, some (.owner owner) => w.setTask t (.checking owner job.worker)
      | _, _ => w.endTask t
    | (s, r) :: rest =>
      match phase with
      | .token => (w.unregisterToken r.eventToken).setTask t (.tearing { job with
          records := (s, { r with eventToken := none }) :: rest, phase := .kill })
      | .kill =>
        if r.process && !ok then w.setTask t (.tearing { job with phase := .judge })
        else
          let w := if r.process then w.record (.killed s) else w
          w.setTask t (.tearing { job with
            phase := if r.cleanup then .cleaning .take else .settle true false })
      | .cleaning phase =>
        let (w, next) := w.clean s phase
        w.setTask t (.tearing { job with phase := next.elim .check .cleaning })
      | .check => w.setTask t (.tearing { job with
          phase := if w.isFinished s then .settle true false else .judge })
      | .judge => w.setTask t (.tearing { job with
          phase := .settle false !(r.cleanup && w.isFinished s) })
      | .settle ok retry => (w.settle s r retry).setTask t (.tearing { job with
          records := rest, phase := if retry then .enqueue s else .token, failed := job.failed || !ok })
      | .enqueue _ => w

/-- The check after a teardown without failures. -/
def owns (w : World) (owner : ℕ) : Bool :=
  w.retiringSessions.countBy (· = owner) ≠ 0 || w.sessions.countBy (·.ownerToken = owner) ≠ 0

/-! ## Runs -/

def advance (w : World) (t : ℕ) (ok : Bool) : Option World :=
  match w.tasks.lookup t with
  | some (.reserving s token) => some (w.register t s token)
  | some (.registered s token) => some (w.attach t s token)
  | some (.removing s orphan) =>
    let (w, token) := w.unregisterSession s
    some (w.setTask t (.dropping s token orphan))
  | some (.dropping s token orphan) =>
    let w := w.unregisterToken token
    some (if orphan then w.setTask t (.orphan s none) else w.endTask t)
  | some (.orphan s none) =>
    let w := w.record (.killed s)
    some (if ok then w.endTask t else w.setTask t (.orphan s (some .take)))
  | some (.orphan s (some phase)) =>
    let (w, next) := w.clean s phase
    some (if next.isSome then w.setTask t (.orphan s next) else w.endTask t)
  | some (.userdata s (some phase) dropped) =>
    let (w, next) := w.clean s phase
    some (if next.isNone && dropped then w.endTask t else w.setTask t (.userdata s next dropped))
  | some (.tearing job) => some (w.tear t job ok)
  | some (.checking owner worker) =>
    some (if w.owns owner then w.setTask t (.enqueueing (.owner owner) worker) else w.endTask t)
  | some (.enqueueing target _) => some ((w.enqueueTarget target).endTask t)
  | _ => none

def step (w : World) : Action → Option World
  | .begin t owner => w.begin t owner
  | .commit t => w.commit t
  | .rollback t => w.rollback t
  | .reserve t owner transaction identity => w.reserve t owner transaction identity
  | .activate t => w.activate t
  | .abandon t => w.abandon t
  | .kill t ok => w.kill t ok
  | .close t ok => w.close t ok
  | .retire t owner order => w.retire t owner order
  | .pop t => w.pop t
  | .retry t order => w.retry t order
  | .advance t ok => w.advance t ok

def run (w : World) : List Action → Option World
  | [] => some w
  | a :: actions => (w.step a).bind fun w => w.run actions

end World

end LuaSkills.ManagedSessions
