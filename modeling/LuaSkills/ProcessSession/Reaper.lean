import LuaSkills.Data.AssocMap
import LuaSkills.Data.Custody
import LuaSkills.Data.Fallible

/-!
# Detached children and their reaper

Threads launch children, wait for them, kill them and drop their sessions; a child that does not exit in
time goes to the queue of one reaper, which polls it until it can be collected. A slot of the reaper is
reserved before a child exists. Children, sessions and keepalive actions are numbered in the order in
which they come into being. What the kernel answers is part of the action.
-/

namespace LuaSkills.ProcessSession

def detachedChildReaperCapacity : ℕ := 256

/-- A direct child as the kernel sees it. One that exited is collected by the first wait that finds it. -/
inductive Process where
  | running | exited | reaped
deriving DecidableEq

structure DetachedChildReapRecord where
  child : ℕ
  keepalive : List ℕ
  processTreeGuard : Bool
  pollErrorReported : Bool
deriving DecidableEq

/-- `ManagedProcessSessionState`, as far as its child is concerned. `childLocked` is the state of the
mutex of `child`; `finalStatus` tells whether a status was cached. -/
structure ManagedProcessSessionState where
  child : Option ℕ
  reaperPermit : Bool
  finalReaperKeepalive : List ℕ
  detachedGuard : Bool
  finalStatus : Bool
  processTreeTerminated : Bool
  childLocked : Bool
  dropping : Bool
deriving DecidableEq

/-- How far `kill_process_tree_and_wait` has come. -/
inductive KillPhase where
  | locked | terminated | reaped | settled
deriving DecidableEq

/-- What a thread is about. A `dropping` kill is the one of `cleanup_on_drop`. -/
inductive Task where
  | reserved (keepalive : List ℕ)
  | spawned (child : ℕ) (keepalive : List ℕ)
  | unattached (child : ℕ) (keepalive : List ℕ)
  | oneShot (child : ℕ) (guard observed : Bool)
  | finalizing (child : ℕ) (guard directStatus : Bool)
  | killing (session : ℕ) (phase : KillPhase) (dropping : Bool)
  | cleaning (session : ℕ) (killed : Bool)
deriving DecidableEq

/-- The loop of `run_detached_child_reaper`. It holds the queue's lock while it polls. -/
inductive Pass where
  | idle
  | polling (index : ℕ) (reaped : List DetachedChildReapRecord)
  | reaping (reaped : List DetachedChildReapRecord)
  | releasing (record : DetachedChildReapRecord) (rest : List DetachedChildReapRecord)
deriving DecidableEq

inductive Event where
  | reaped (child : ℕ)
  | handedOff (child : ℕ) (keepalive : List ℕ)
  | released (keepalive : ℕ)
deriving DecidableEq

structure World where
  reserved : ℕ
  queue : List DetachedChildReapRecord
  pass : Pass
  processes : AssocMap ℕ Process
  sessions : AssocMap ℕ ManagedProcessSessionState
  tasks : AssocMap ℕ Task
  nextChild : ℕ
  nextSession : ℕ
  nextKeepalive : ℕ
  log : List Event

/-- How an attachment ends: with a rollback, with a session, or with a one-shot child. -/
inductive Attached where
  | failed
  | session (guard : Bool)
  | oneShot (guard : Bool)
deriving DecidableEq

inductive Action where
  | reserve (task : ℕ) (keepalive : Bool)
  | spawn (task : ℕ) (ok : Bool)
  | attach (task : ℕ) (outcome : Attached)
  | rollback (task : ℕ) (ok : Bool)
  | observe (task : ℕ)
  | finalize (task : ℕ) (ok : Bool)
  | converge (task : ℕ) (treeEmpty keepalive : Bool)
  | install (session : ℕ)
  | kill (task session : ℕ)
  | drop (task session : ℕ)
  | terminate (task : ℕ) (ok : Bool)
  | wait (task : ℕ) (ok : Bool)
  | returnPermit (task : ℕ)
  | returnKeepalive (task : ℕ)
  | dropState (task : ℕ)
  | exit (child : ℕ)
  | wake
  | poll (tree : Option Bool) (ok : Bool)
  | unlock
  | count
  | release
  | sleep
deriving DecidableEq

/-- The session that the task runs on. -/
def Task.session : Task → Option ℕ
  | .killing s .. | .cleaning s _ => some s
  | _ => none

def Pass.locked : Pass → Bool
  | .polling .. => true
  | _ => false

/-- The records of the pass that still count as reserved. -/
def Pass.pending : Pass → List DetachedChildReapRecord
  | .polling _ reaped => reaped
  | .reaping reaped => reaped
  | .releasing _ rest => rest
  | .idle => []

def Pass.records : Pass → List DetachedChildReapRecord
  | .releasing record rest => record :: rest
  | p => p.pending

/-- An `AtomicUsize::fetch_sub` by one. It wraps. -/
def fetchSub (n : ℕ) : ℕ := if n = 0 then wordBound - 1 else n - 1

namespace World

def new : World := ⟨0, [], .idle, ∅, ∅, ∅, 0, 0, 0, []⟩

def setTask (w : World) (t : ℕ) (task : Task) : World := { w with tasks := w.tasks.insert t task }

def endTask (w : World) (t : ℕ) : World := { w with tasks := w.tasks.erase t }

def setSession (w : World) (s : ℕ) (state : ManagedProcessSessionState) : World :=
  { w with sessions := w.sessions.insert s state }

def endSession (w : World) (s : ℕ) : World := { w with sessions := w.sessions.erase s }

def dropPermit (w : World) : World := { w with reserved := fetchSub w.reserved }

/-- Keepalive actions run, or are dropped with what they captured. -/
def releaseAll (w : World) (keepalive : List ℕ) : World :=
  { w with log := w.log ++ keepalive.map .released }

/-- A keepalive action is made, or none. -/
def newKeepalives (w : World) (keepalive : Bool) : World × List ℕ :=
  if keepalive then ({ w with nextKeepalive := w.nextKeepalive + 1 }, [w.nextKeepalive]) else (w, [])

/-- `handoff_with_resources`. The permit is consumed. -/
def handoff (w : World) (child : ℕ) (keepalive : List ℕ) (guard : Bool) : World :=
  { w with
    queue := w.queue ++ [⟨child, keepalive, guard, false⟩]
    log := w.log ++ [.handedOff child keepalive] }

/-- A `try_wait` that the kernel answers: whether the child has exited, which collects it. -/
def tryWait (w : World) (child : ℕ) : World × Bool :=
  match w.processes.lookup child with
  | some .exited =>
    ({ w with processes := w.processes.insert child .reaped, log := w.log ++ [.reaped child] }, true)
  | some .reaped => (w, true)
  | _ => (w, false)

/-- `wait_for_child_exit_until` with its last poll: it succeeds only on a child that exited. -/
def waitUntil (w : World) (child : ℕ) (ok : Bool) : Option (World × Bool) :=
  if ok then
    match w.tryWait child with
    | (w, true) => some (w, true)
    | (_, false) => none
  else some (w, false)

/-! ## Launch -/

/-- `reserve_detached_child_reaper_slot`, on behalf of a launch that brings a keepalive or none. -/
def reserve (w : World) (t : ℕ) (keepalive : Bool) : Option World :=
  if t ∈ w.tasks then none
  else
    let (w, keepalives) := w.newKeepalives keepalive
    if w.reserved < detachedChildReaperCapacity then
      some ({ w with reserved := w.reserved + 1 }.setTask t (.reserved keepalives))
    else some (w.releaseAll keepalives)

/-- `spawn_prepared_command`. -/
def spawn (w : World) (t : ℕ) (ok : Bool) : Option World :=
  match w.tasks.lookup t with
  | some (.reserved keepalive) =>
    if ok then
      some ({ w with
        processes := w.processes.insert w.nextChild .running
        nextChild := w.nextChild + 1 }.setTask t (.spawned w.nextChild keepalive))
    else some ((w.endTask t).dropPermit.releaseAll keepalive)
  | _ => none

/-- The attachment of the platform's controller, and what the launch returns. -/
def attach (w : World) (t : ℕ) (outcome : Attached) : Option World :=
  match w.tasks.lookup t with
  | some (.spawned child keepalive) =>
    match outcome with
    | .failed => some (w.setTask t (.unattached child keepalive))
    | .session guard =>
      some (({ w with nextSession := w.nextSession + 1 }.endTask t).setSession w.nextSession
        ⟨some child, true, keepalive, guard, false, false, false, false⟩)
    | .oneShot guard => some ((w.setTask t (.oneShot child guard false)).releaseAll keepalive)
  | _ => none

/-- The end of `terminate_spawned_child_after_attach_failure`. -/
def rollback (w : World) (t : ℕ) (ok : Bool) : Option World :=
  match w.tasks.lookup t with
  | some (.unattached child keepalive) => do
    let (w, exited) ← w.waitUntil child ok
    let w := w.endTask t
    if exited then return w.dropPermit.releaseAll keepalive
    else if w.pass.locked then none
    else return w.handoff child keepalive false
  | _ => none

/-! ## One-shot children -/

def observe (w : World) (t : ℕ) : Option World :=
  match w.tasks.lookup t with
  | some (.oneShot child guard false) =>
    let (w, exited) := w.tryWait child
    some (w.setTask t (.oneShot child guard exited))
  | _ => none

/-- The wait of `finalize_one_shot_process_tree`, or of the teardown of a worker. -/
def finalize (w : World) (t : ℕ) (ok : Bool) : Option World :=
  match w.tasks.lookup t with
  | some (.oneShot child guard observed) =>
    (if observed then some (w, true) else w.waitUntil child ok).map fun (w, exited) =>
      w.setTask t (.finalizing child guard exited)
  | _ => none

/-- Its end: the child is done with, or goes to the reaper, for a worker with its package snapshot. -/
def converge (w : World) (t : ℕ) (treeEmpty keepalive : Bool) : Option World :=
  match w.tasks.lookup t with
  | some (.finalizing child guard directStatus) =>
    let w := w.endTask t
    if directStatus && (!guard || treeEmpty) then some w.dropPermit
    else if w.pass.locked then none
    else
      let (w, keepalives) := w.newKeepalives keepalive
      some (w.handoff child keepalives guard)
  | _ => none

/-! ## Sessions -/

/-- `install_final_reaper_keepalive`. -/
def install (w : World) (s : ℕ) : Option World :=
  match w.sessions.lookup s with
  | some state =>
    if state.dropping then none
    else some ({ w with nextKeepalive := w.nextKeepalive + 1 }.setSession s
      { state with finalReaperKeepalive := state.finalReaperKeepalive ++ [w.nextKeepalive] })
  | none => none

/-- `kill_process_tree_and_wait` takes the child's lock. -/
def kill (w : World) (t s : ℕ) : Option World :=
  match w.sessions.lookup s with
  | some state =>
    if t ∈ w.tasks ∨ state.dropping ∨ state.childLocked then none
    else some ((w.setSession s { state with childLocked := true }).setTask t (.killing s .locked false))
  | none => none

/-- The last handle goes, with no call under way: `cleanup_on_drop` kills first. -/
def drop (w : World) (t s : ℕ) : Option World :=
  match w.sessions.lookup s with
  | some state =>
    if t ∈ w.tasks ∨ state.dropping ∨ w.tasks.countBy (·.session = some s) ≠ 0 then none
    else some ((w.setSession s { state with childLocked := true, dropping := true }).setTask t
      (.killing s .locked true))
  | none => none

/-- The end of a kill: the call returns, or the drop goes on. -/
def returned (w : World) (t s : ℕ) (dropping killed : Bool) : World :=
  if dropping then w.setTask t (.cleaning s killed) else w.endTask t

/-- `terminate_process_tree_once`, and the look at the cached status after it. -/
def terminate (w : World) (t : ℕ) (ok : Bool) : Option World :=
  match w.tasks.lookup t with
  | some (.killing s .locked dropping) => do
    let state ← w.sessions.lookup s
    if state.child.isNone || !(state.processTreeTerminated || ok) then
      return (w.setSession s { state with childLocked := false }).returned t s dropping false
    else if state.finalStatus then
      return (w.setSession s { state with processTreeTerminated := true, childLocked := false }).returned t s
        dropping true
    else
      return (w.setSession s { state with processTreeTerminated := true }).setTask t
        (.killing s .terminated dropping)
  | _ => none

def wait (w : World) (t : ℕ) (ok : Bool) : Option World :=
  match w.tasks.lookup t with
  | some (.killing s .terminated dropping) => do
    let state ← w.sessions.lookup s
    let child ← state.child
    let (w, exited) ← w.waitUntil child ok
    if exited then
      return (w.setSession s { state with finalStatus := true, childLocked := false }).setTask t
        (.killing s .reaped dropping)
    else return (w.setSession s { state with childLocked := false }).returned t s dropping false
  | _ => none

def returnPermit (w : World) (t : ℕ) : Option World :=
  match w.tasks.lookup t with
  | some (.killing s .reaped dropping) => do
    let state ← w.sessions.lookup s
    let w' := (w.setSession s { state with reaperPermit := false }).setTask t (.killing s .settled dropping)
    return if state.reaperPermit then w'.dropPermit else w'
  | _ => none

def returnKeepalive (w : World) (t : ℕ) : Option World :=
  match w.tasks.lookup t with
  | some (.killing s .settled dropping) => do
    let state ← w.sessions.lookup s
    return ((w.releaseAll state.finalReaperKeepalive).setSession s
      { state with finalReaperKeepalive := [], detachedGuard := false }).returned t s dropping true
  | _ => none

/-- The end of `cleanup_on_drop` and the drop of the fields. -/
def dropState (w : World) (t : ℕ) : Option World :=
  match w.tasks.lookup t with
  | some (.cleaning s killed) => do
    let state ← w.sessions.lookup s
    let w' := (w.endSession s).endTask t
    match killed, state.child, state.reaperPermit with
    | false, some child, true =>
      if w.pass.locked then none
      else return w'.handoff child state.finalReaperKeepalive state.detachedGuard
    | _, _, permit =>
      return (if permit then w'.dropPermit else w').releaseAll state.finalReaperKeepalive
  | _ => none

/-! ## The reaper -/

def exit (w : World) (child : ℕ) : Option World :=
  match w.processes.lookup child with
  | some .running => some { w with processes := w.processes.insert child .exited }
  | _ => none

/-- The worker finds a child in the queue. -/
def wake (w : World) : Option World :=
  match w.pass with
  | .idle => if w.queue = [] then none else some { w with pass := .polling 0 [] }
  | _ => none

/-- One turn of the polling loop. `tree` is the answer of the record's guard and `ok` whether the kernel
answers `try_wait`. -/
def poll (w : World) (tree : Option Bool) (ok : Bool) : Option World :=
  match w.pass with
  | .polling index reaped => do
    let record ← w.queue[index]?
    let report : World := { w with
      queue := w.queue.set index { record with pollErrorReported := true }
      pass := .polling (index + 1) reaped }
    match if record.processTreeGuard then tree else some true with
    | none => return report
    | some treeEmpty =>
      if ok then
        let (w, exited) := w.tryWait record.child
        if exited && treeEmpty then
          return { w with queue := w.queue.swapRemove index, pass := .polling index (reaped ++ [record]) }
        else return { w with pass := .polling (index + 1) reaped }
      else return report
  | _ => none

/-- The end of the loop, which releases the queue. -/
def unlock (w : World) : Option World :=
  match w.pass with
  | .polling index reaped =>
    if w.queue.length ≤ index then some { w with pass := .reaping reaped } else none
  | _ => none

/-- The slot of one collected child is free. Its record is dropped after that. -/
def count (w : World) : Option World :=
  match w.pass with
  | .reaping (record :: rest) => some { w with pass := .releasing record rest }.dropPermit
  | _ => none

/-- The drop of the record, which runs its keepalive. -/
def release (w : World) : Option World :=
  match w.pass with
  | .releasing record rest => some ({ w with pass := .reaping rest }.releaseAll record.keepalive)
  | _ => none

def sleep (w : World) : Option World :=
  match w.pass with
  | .reaping [] => some { w with pass := .idle }
  | _ => none

/-! ## Runs -/

def step (w : World) : Action → Option World
  | .reserve t keepalive => w.reserve t keepalive
  | .spawn t ok => w.spawn t ok
  | .attach t outcome => w.attach t outcome
  | .rollback t ok => w.rollback t ok
  | .observe t => w.observe t
  | .finalize t ok => w.finalize t ok
  | .converge t treeEmpty keepalive => w.converge t treeEmpty keepalive
  | .install s => w.install s
  | .kill t s => w.kill t s
  | .drop t s => w.drop t s
  | .terminate t ok => w.terminate t ok
  | .wait t ok => w.wait t ok
  | .returnPermit t => w.returnPermit t
  | .returnKeepalive t => w.returnKeepalive t
  | .dropState t => w.dropState t
  | .exit child => w.exit child
  | .wake => w.wake
  | .poll tree ok => w.poll tree ok
  | .unlock => w.unlock
  | .count => w.count
  | .release => w.release
  | .sleep => w.sleep

def run (w : World) : List Action → Option World
  | [] => some w
  | a :: actions => (w.step a).bind fun w => w.run actions

end World

end LuaSkills.ProcessSession
