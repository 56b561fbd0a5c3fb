import LuaSkills.Data.AssocMap
import LuaSkills.Embedded.Config

/-!
# One runtime slot of an FFI transport

A slot owns the construction of one embedded runtime and counts the native calls that use it. Every
method is a few sections under the slot's lock; construction, the request that the core close, and the
polls of its workers run between them. A task is a call between two of its sections, and a run
interleaves the tasks of any threads.
-/

namespace LuaSkills.Ffi

open Embedded

inductive InitializationPhase where
  | reserved
  | initializing
  | ready
  | failed
  | faulted
deriving DecidableEq

/-- The constructed runtime: whether it was asked to close, whether it accepted, and whether its
workers have drained. -/
structure Core where
  asked : Bool
  closing : Bool
  drained : Bool
deriving DecidableEq

/-- The storage owner that construction may create before the runtime. -/
structure PersistenceOwner where
  asked : Bool
  drained : Bool
deriving DecidableEq

/-- The state behind the slot's lock; `runtime` and `persistence` tell whether the slot holds its
reference. -/
structure RuntimeState where
  initialization : InitializationPhase
  closing : Bool
  released : Bool
  active : ℕ
  runtime : Bool
  persistence : Bool
  error : Option EmbeddedError
deriving DecidableEq

/-- The references that one lease holds. -/
structure RuntimeLease where
  runtime : Bool
  persistence : Bool
deriving DecidableEq

/-- How the factory of `initialize_with` ends. -/
inductive Construction where
  | built
  | failed (error : EmbeddedError)
  | panicked
deriving DecidableEq

/-- Where the poll of a slot fails: in its core, or in the storage worker once that was asked. -/
inductive PollFault where
  | core (error : EmbeddedError)
  | store (error : EmbeddedError)
deriving DecidableEq

/-- A call between two of its sections. -/
inductive Task where
  | constructing
  | concluding (lease : RuntimeLease)
  | settling (failure : Option EmbeddedError)
  | leased (lease : RuntimeLease)
  | asking (lease : RuntimeLease)
  | probing (lease : RuntimeLease) (poll first late : Bool)
  | dropping
deriving DecidableEq

/-- What a run did. `leased` tells whether the lease admits new work; a report is late when it began
after the slot had been reported closed. -/
inductive Event where
  | constructionStarted
  | closeRequested
  | leased (admission : Bool)
  | reported (closed late : Bool)
  | released
deriving DecidableEq

structure World where
  slot : RuntimeState
  core : Option Core
  store : Option PersistenceOwner
  tasks : AssocMap ℕ Task
  log : List Event

def busy : EmbeddedError := .busy "FFI runtime ownership is still active"

def closed : EmbeddedError := ⟨.closed, "FFI runtime admission is closed"⟩

def RuntimeState.new : RuntimeState := ⟨.reserved, false, false, 0, false, false, none⟩

namespace World

def new : World := ⟨.new, none, none, ∅, []⟩

def record (w : World) (e : Event) : World := { w with log := w.log ++ [e] }

def setTask (w : World) (t : ℕ) (task : Task) : World := { w with tasks := w.tasks.insert t task }

/-- A call that adds itself to the users of the slot. -/
def join (w : World) (t : ℕ) (task : Task) : World :=
  { w with slot := { w.slot with active := w.slot.active + 1 }, tasks := w.tasks.insert t task }

/-- The last section of a call; the decrement is the source's, and would panic below zero. -/
def leave (w : World) (t : ℕ) : Option World := do
  let active ← checkedSub w.slot.active 1
  return { w with slot := { w.slot with active }, tasks := w.tasks.erase t }

/-! ## Sections -/

/-- The reference that `lease` hands out: none while the slot holds nothing. -/
def leaseOf (w : World) : Option RuntimeLease :=
  if w.slot.runtime || w.slot.persistence then some ⟨w.slot.runtime, w.slot.persistence⟩ else none

/-- The first section of `initialize_with`. -/
def initializeWith (w : World) (t : ℕ) : EmbeddedResult World := do
  refuseIf (w.slot.released = true) closed
  refuseIf (w.slot.closing = true) closed
  refuseIf (w.slot.initialization ≠ .reserved) busy
  return ({ w with slot := { w.slot with initialization := .initializing } }.join t .constructing).record
    .constructionStarted

/-- The factory publishes the storage owner before it builds the runtime. -/
def publishStore (w : World) : World :=
  { w with slot := { w.slot with persistence := true }, store := some ⟨false, false⟩ }

/-- The second section of `initialize_with`: the outcome is stored, and a close that overtook the
construction, or a failed construction, closes what was built. -/
def conclude (w : World) (t : ℕ) (construction : Construction) : World :=
  let w :=
    match construction with
    | .built =>
      { w with
        slot := { w.slot with runtime := true, initialization := .ready }
        core := some ⟨false, false, false⟩ }
    | .failed error => { w with slot := { w.slot with error := some error, initialization := .failed } }
    | .panicked =>
      { w with
        slot := {
          w.slot with
          error := some (.internal "runtime initialization panicked; safe unloading is unproven")
          initialization := .faulted } }
  if w.slot.closing || w.slot.initialization = .failed then
    w.setTask t (.concluding ⟨w.slot.runtime, w.slot.persistence⟩)
  else w.setTask t (.settling none)

/-- `runtime.request_close()`, or the storage writer's when there is no runtime; a core that fails to
accept was asked all the same. -/
def askClose (w : World) (lease : RuntimeLease) (fault : Option EmbeddedError) : World :=
  if lease.runtime then
    { w with core := w.core.map fun c => { c with asked := true, closing := c.closing || fault.isNone } }
  else if lease.persistence then { w with store := w.store.map fun s => { s with asked := true } }
  else w

def askFailure (lease : RuntimeLease) (fault : Option EmbeddedError) : Option EmbeddedError :=
  if lease.runtime then fault else none

/-- The last section of `initialize_with`. -/
def settle (w : World) (t : ℕ) (failure : Option EmbeddedError) : Option World :=
  { w with slot := { w.slot with error := failure.or w.slot.error } }.leave t

def acquire (w : World) (t : ℕ) (admission : Bool) : EmbeddedResult World := do
  refuseIf (w.slot.released = true) closed
  refuseIf (admission = true ∧ w.slot.closing = true) closed
  refuseIf (w.slot.runtime = false)
    (EmbeddedError.busy "FFI runtime has no initialized core; query runtime_status")
  let lease ← okOr w.leaseOf (EmbeddedError.internal "initialized slot creates one retained native lease")
  return (w.join t (.leased lease)).record (.leased admission)

/-- The section of `request_close`; a construction under way is left to close its own result. -/
def requestClose (w : World) (t : ℕ) : EmbeddedResult World := do
  refuseIf (w.slot.released = true) closed
  let w := { w with slot := { w.slot with closing := true } }.record .closeRequested
  match if w.slot.initialization = .initializing then none else w.leaseOf with
  | none => return w
  | some lease => return (w.join t (.asking lease)).record (.leased false)

/-- What a snapshot first says about closure. -/
def closedAtOnce (w : World) : Bool :=
  w.slot.closing && (w.slot.initialization = .reserved || w.slot.initialization = .failed)

/-- Whether a snapshot polls the workers of its lease. -/
def polls (w : World) : Bool :=
  w.slot.closing && (w.slot.initialization = .ready || w.slot.initialization = .failed)

/-- Whether the slot was reported closed before. -/
def reportedClosed (w : World) : Bool :=
  w.log.contains (.reported true true) || w.log.contains (.reported true false)

/-- The section of `snapshot`. Without a lease the first answer stands. -/
def snapshot (w : World) (t : ℕ) : EmbeddedResult World := do
  refuseIf (w.slot.released = true) closed
  match w.leaseOf with
  | none => return w.record (.reported w.closedAtOnce w.reportedClosed)
  | some lease =>
    return (w.join t (.probing lease w.polls w.closedAtOnce w.reportedClosed)).record (.leased false)

/-- `PersistenceOwner::poll_closed` of a lease that holds one: the worker is asked to close first. -/
def pollStore (w : World) (lease : RuntimeLease) (fault : Option PollFault) :
    World × EmbeddedResult Bool :=
  if lease.persistence then
    ({ w with store := w.store.map fun s => { s with asked := true } },
      match fault with
      | some (.store error) => .error error
      | _ => .ok (w.store.any (·.drained)))
  else (w, .ok true)

/-- `RuntimeLease::poll_closed`: the storage worker is asked only behind a drained core. -/
def pollClosed (w : World) (lease : RuntimeLease) (fault : Option PollFault) :
    World × EmbeddedResult Bool :=
  if lease.runtime then
    match fault with
    | some (.core error) => (w, .error error)
    | _ =>
      if w.core.any fun c => c.closing && c.drained then w.pollStore lease fault else (w, .ok false)
  else w.pollStore lease fault

/-- The polls of a snapshot, and its report. A snapshot that fails reports nothing: before its poll
for the usage of the core, behind it for the status of the storage worker. -/
def report (w : World) (t : ℕ) (lease : RuntimeLease) (poll first late : Bool)
    (fault : Option PollFault) : World :=
  let polled := if poll then w.pollClosed lease fault else (w, .ok first)
  let next := polled.1.setTask t .dropping
  match polled.2, fault with
  | .ok closed, none => next.record (.reported closed late)
  | _, _ => next

/-- What `release` checks before it polls. -/
def releasable (w : World) : EmbeddedResult Unit := do
  refuseIf (w.slot.released = true) closed
  refuseIf (w.slot.closing = false ∨ w.slot.active ≠ 0 ∨ w.slot.initialization = .initializing) busy
  refuseIf (w.slot.initialization = .faulted)
    (EmbeddedError.internal "faulted initialization prevents proving safe runtime release")

/-- `release`, whose polls run under the lock: a refusal for their sake leaves the storage worker
asked to close. -/
def release (w : World) (fault : Option PollFault) : World × EmbeddedResult Unit :=
  match w.releasable with
  | .error error => (w, .error error)
  | .ok _ =>
    let polled := w.pollClosed ⟨w.slot.runtime, w.slot.persistence⟩ fault
    match polled.2 with
    | .error error => (polled.1, .error error)
    | .ok false => (polled.1, .error busy)
    | .ok true =>
      let slot := { polled.1.slot with released := true, runtime := false, persistence := false }
      ({ polled.1 with slot }.record .released, .ok ())

/-! ## Steps -/

inductive Action where
  | initializeWith (t : ℕ)
  | publishStore (t : ℕ)
  | conclude (t : ℕ) (construction : Construction)
  | askConcluded (t : ℕ) (fault : Option EmbeddedError)
  | settle (t : ℕ)
  | acquire (t : ℕ) (admission : Bool)
  | dropLease (t : ℕ)
  | requestClose (t : ℕ)
  | askClose (t : ℕ) (fault : Option EmbeddedError)
  | snapshot (t : ℕ)
  | poll (t : ℕ) (fault : Option PollFault)
  | leave (t : ℕ)
  | release (fault : Option PollFault)
  | drainCore
  | drainStore
deriving DecidableEq

/-- A call that starts under an unused name; a refused one changes nothing. -/
def start (w : World) (t : ℕ) (call : EmbeddedResult World) : Option World :=
  if t ∈ w.tasks then none else some (call.toOption.getD w)

def step (w : World) : Action → Option World
  | .initializeWith t => w.start t (w.initializeWith t)
  | .publishStore t =>
    match w.tasks.lookup t with
    | some .constructing => if w.slot.persistence then none else some w.publishStore
    | _ => none
  | .conclude t construction =>
    match w.tasks.lookup t with
    | some .constructing => some (w.conclude t construction)
    | _ => none
  | .askConcluded t fault =>
    match w.tasks.lookup t with
    | some (.concluding lease) =>
      some ((w.askClose lease fault).setTask t (.settling (askFailure lease fault)))
    | _ => none
  | .settle t =>
    match w.tasks.lookup t with
    | some (.settling failure) => w.settle t failure
    | _ => none
  | .acquire t admission => w.start t (w.acquire t admission)
  | .dropLease t =>
    match w.tasks.lookup t with
    | some (.leased _) => w.leave t
    | _ => none
  | .requestClose t => w.start t (w.requestClose t)
  | .askClose t fault =>
    match w.tasks.lookup t with
    | some (.asking lease) => some ((w.askClose lease fault).setTask t .dropping)
    | _ => none
  | .snapshot t => w.start t (w.snapshot t)
  | .poll t fault =>
    match w.tasks.lookup t with
    | some (.probing lease poll first late) => some (w.report t lease poll first late fault)
    | _ => none
  | .leave t =>
    match w.tasks.lookup t with
    | some .dropping => w.leave t
    | _ => none
  | .release fault => some (w.release fault).1
  | .drainCore =>
    -- The workers of a core end only after it accepted to close.
    match w.core with
    | some c => if c.closing then some { w with core := some { c with drained := true } } else none
    | none => none
  | .drainStore =>
    match w.store with
    | some s => if s.asked then some { w with store := some { s with drained := true } } else none
    | none => none

def run (w : World) : List Action → Option World
  | [] => some w
  | a :: as => (w.step a).bind fun w' => w'.run as

end World

end LuaSkills.Ffi
