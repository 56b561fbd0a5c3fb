import LuaSkills.Ffi.SlotRuns

/-!
# One FFI transport

A transport owns the result buffers that the host reads and the runtime slots it registered. A response
is reserved at the largest size before its command runs, and exchanged for its real size when it is
published. Calls are sequences of sections under the transport's lock; the slots they meet are those of
`LuaSkills.Ffi.Slot`, used by any other calls at the same time.
-/

namespace LuaSkills.Ffi.Transport

open Embedded

inductive EmbeddedFfiStatus where
  | ok | invalidArgument | notFound | busy | capacityExceeded | closed | internal | unsupported
deriving DecidableEq

structure TransportConfig where
  maxRuntimes : ℕ
  maxResultBuffers : ℕ
  maxResultBytes : ℕ
  maxResponseBytes : ℕ
deriving DecidableEq

/-- The buffer behind a published result. -/
structure Buffer where
  ptr : ℕ
  len : ℕ
deriving DecidableEq

/-- The handle that the host gives back. -/
structure FfiEmbeddedResultV1 where
  ptr : ℕ
  len : ℕ
  allocationId : ℕ
deriving DecidableEq

/-- The state behind the transport's lock. -/
structure TransportState where
  closing : Bool
  released : Bool
  pending : ℕ
  bytes : ℕ
  results : AssocMap ℕ Buffer
  runtimes : AssocMap String Unit

/-- A call between two of its sections. `closing` holds the slots that `request_close` has not asked
yet and the call it waits for. -/
inductive Task where
  | reserved (id : ℕ)
  | registering (id : String)
  | closing (remaining : List String) (current : Option (String × ℕ))
  | releasing (id : String)
  | removing (id : String)
deriving DecidableEq

inductive Event where
  | issued (id : ℕ)
  | reserved (id : ℕ)
  | published (id : ℕ)
  | freed (id : ℕ)
  | registered (id : String)
  | closeReturned
  | released
deriving DecidableEq

structure System where
  nextId : ℕ
  state : TransportState
  slots : String → World
  tasks : AssocMap ℕ Task
  log : List Event

def runtimeId (n : ℕ) : String := "ffi-runtime:" ++ n.repr

namespace System

def new (nextId : ℕ) : System :=
  ⟨nextId, ⟨false, false, 0, 0, ∅, ∅⟩, fun _ => .new, ∅, []⟩

def record (m : System) (e : Event) : System := { m with log := m.log ++ [e] }

def setTask (m : System) (t : ℕ) (task : Task) : System := { m with tasks := m.tasks.insert t task }

def endTask (m : System) (t : ℕ) : System := { m with tasks := m.tasks.erase t }

def setSlot (m : System) (id : String) (slot : World) : System :=
  { m with slots := Function.update m.slots id slot }

/-- The process-wide identity counter, which fails before it wraps. -/
def identity (m : System) : Option (ℕ × System) := do
  let next ← checkedAdd m.nextId 1
  return (m.nextId, { m with nextId := next }.record (.issued m.nextId))

/-! ## Results -/

def reserve (config : TransportConfig) (m : System) (t : ℕ) : Except EmbeddedFfiStatus System := do
  refuseIf (m.state.released = true) .closed
  refuseIf (m.state.results.size + m.state.pending ≥ config.maxResultBuffers ∨
    config.maxResponseBytes > config.maxResultBytes - m.state.bytes) .capacityExceeded
  let (id, m) ← okOr m.identity .internal
  return ({ m with
      state := {
        m.state with
        pending := m.state.pending + 1
        bytes := m.state.bytes + config.maxResponseBytes } }.setTask t (.reserved id)).record (.reserved id)

/-- The exchange of a reservation for the bytes of its response; the subtractions are the source's and
would panic below zero. -/
def publish (config : TransportConfig) (m : System) (t id ptr len : ℕ) : Option System := do
  let unused ← checkedSub config.maxResponseBytes len
  let bytes ← checkedSub m.state.bytes unused
  let pending ← checkedSub m.state.pending 1
  return ({ m with
    state := { m.state with bytes, pending, results := m.state.results.insert id ⟨ptr, len⟩ } }.endTask
      t).record (.published id)

/-- The drop of a reservation that was not published. -/
def dropReservation (config : TransportConfig) (m : System) (t : ℕ) : Option System := do
  let pending ← checkedSub m.state.pending 1
  let bytes ← checkedSub m.state.bytes config.maxResponseBytes
  return { m with state := { m.state with bytes, pending } }.endTask t

/-- A refused handle leaves the transport as it is; the outer result tells whether it panics. -/
def freeResult (m : System) (result : FfiEmbeddedResultV1) : Option (Except EmbeddedFfiStatus System) :=
  if m.state.released then some (.error .closed)
  else
    match m.state.results.lookup result.allocationId with
    | none => some (.error .notFound)
    | some owned =>
      if owned.ptr ≠ result.ptr ∨ owned.len ≠ result.len then some (.error .invalidArgument)
      else do
        let bytes ← checkedSub m.state.bytes owned.len
        return .ok ({ m with
          state := {
            m.state with bytes, results := m.state.results.erase result.allocationId } }.record
              (.freed result.allocationId))

/-! ## Runtimes -/

/-- `RuntimeSlot::new`: a fresh slot under an identity of its own. -/
def newSlot (m : System) (t : ℕ) : Except EmbeddedFfiStatus System := do
  let (n, m) ← okOr m.identity .internal
  return (m.setSlot (runtimeId n) .new).setTask t (.registering (runtimeId n))

def registerRuntime (config : TransportConfig) (m : System) (t : ℕ) (id : String) : System :=
  if m.state.closing || m.state.released then m.endTask t
  else if m.state.runtimes.size ≥ config.maxRuntimes then m.endTask t
  else
    ({ m with state := { m.state with runtimes := m.state.runtimes.insert id () } }.endTask t).record
      (.registered id)

/-- The lookup that every command on a runtime starts with. -/
def runtime (m : System) (id : String) : EmbeddedResult Unit := do
  refuseIf (m.state.released = true) (EmbeddedError.mk .closed "FFI transport admission is closed")
  refuseIf (id ∉ m.state.runtimes)
    (EmbeddedError.notFound "FFI runtime identity is not registered in this transport")

def requestClose (m : System) (t : ℕ) : Except EmbeddedFfiStatus System := do
  refuseIf (m.state.released = true) .closed
  return { m with state := { m.state with closing := true } }.setTask t
    (.closing m.state.runtimes.keys none)

/-- `release`, under the locks of the registry and of the transport. -/
def release (m : System) : Except EmbeddedFfiStatus System := do
  refuseIf (m.state.released = true) .notFound
  refuseIf (m.state.closing = false ∨ m.state.pending ≠ 0 ∨ m.state.results.size ≠ 0 ∨
    m.state.runtimes.size ≠ 0) .busy
  return { m with state := { m.state with released := true } }.record .released

/-! ## Steps -/

inductive Action where
  | foreignIdentity
  | reserve (t : ℕ)
  | publish (t ptr len : ℕ)
  | dropReservation (t : ℕ)
  | freeResult (result : FfiEmbeddedResultV1)
  | newSlot (t : ℕ)
  | register (t : ℕ)
  | abandon (t : ℕ)
  | slot (id : String) (a : World.Action)
  | requestClose (t : ℕ)
  | closeNext (t call : ℕ)
  | closeWaited (t : ℕ)
  | closeReturn (t : ℕ)
  | releaseRuntime (t : ℕ) (id : String)
  | releaseSlot (t : ℕ) (fault : Option PollFault)
  | removeRuntime (t : ℕ)
  | release

/-- A call that starts under an unused name; a refused one changes nothing. -/
def start (m : System) (t : ℕ) (call : Except EmbeddedFfiStatus System) : Option System :=
  if t ∈ m.tasks then none else some (call.toOption.getD m)

def step (config : TransportConfig) (m : System) : Action → Option System
  | .foreignIdentity => m.identity.map Prod.snd
  | .reserve t => m.start t (reserve config m t)
  | .publish t ptr len =>
    match m.tasks.lookup t with
    | some (.reserved id) =>
      -- A response of the wrong size is refused, and its reservation dropped by its owner.
      if len = 0 ∨ len > config.maxResponseBytes then some m else publish config m t id ptr len
    | _ => none
  | .dropReservation t =>
    match m.tasks.lookup t with
    | some (.reserved _) => dropReservation config m t
    | _ => none
  | .freeResult result => (m.freeResult result).map fun r => r.toOption.getD m
  | .newSlot t => m.start t (m.newSlot t)
  | .register t =>
    match m.tasks.lookup t with
    | some (.registering id) => some (registerRuntime config m t id)
    | _ => none
  | .abandon t =>
    match m.tasks.lookup t with
    | some (.registering _) => some (m.endTask t)
    | _ => none
  | .slot id a => ((m.slots id).step a).map (m.setSlot id)
  | .requestClose t => m.start t (m.requestClose t)
  | .closeNext t call =>
    match m.tasks.lookup t with
    | some (.closing (id :: remaining) none) =>
      ((m.slots id).step (.requestClose call)).map fun slot =>
        (m.setSlot id slot).setTask t (.closing remaining (some (id, call)))
    | _ => none
  | .closeWaited t =>
    match m.tasks.lookup t with
    | some (.closing remaining (some (id, call))) =>
      if call ∈ (m.slots id).tasks then none else some (m.setTask t (.closing remaining none))
    | _ => none
  | .closeReturn t =>
    match m.tasks.lookup t with
    | some (.closing [] none) => some ((m.endTask t).record .closeReturned)
    | _ => none
  | .releaseRuntime t id =>
    if t ∈ m.tasks then none
    else
      match m.runtime id with
      | .ok () => some (m.setTask t (.releasing id))
      | .error _ => some m
  | .releaseSlot t fault =>
    match m.tasks.lookup t with
    | some (.releasing id) =>
      match (m.slots id).release fault with
      | (slot, .ok _) => some ((m.setSlot id slot).setTask t (.removing id))
      | (slot, .error _) => some ((m.setSlot id slot).endTask t)
    | _ => none
  | .removeRuntime t =>
    match m.tasks.lookup t with
    | some (.removing id) =>
      some ({ m with state := { m.state with runtimes := m.state.runtimes.erase id } }.endTask t)
    | _ => none
  | .release => some (m.release.toOption.getD m)

def run (config : TransportConfig) (m : System) : List Action → Option System
  | [] => some m
  | a :: as => (step config m a).bind fun m' => run config m' as

end System

end LuaSkills.Ffi.Transport
