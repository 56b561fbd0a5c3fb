import LuaSkills.Data.Fallible

/-!
# Errors and budgets of the embedded runtime

The stable error codes with their English diagnostics, the parent budgets a host resolves once, the
physical capacity policy and the policy of one execution group. Each policy has one validator that
reports the first violated rule; the lemmas at the end of a section say what an accepted policy
promises.
-/

namespace LuaSkills.Embedded

/-- Stable machine-readable failures. -/
inductive EmbeddedErrorCode where
  | invalidArgument | notFound | staleGeneration | capacityExceeded | busy | alreadyCompleted
  | closed | cancelled | deadlineExceeded | permissionDenied | unsupported | executionFailed
  | cleanupFailed | internal
deriving DecidableEq

/-- A stable code with its diagnostic text. -/
structure EmbeddedError where
  code : EmbeddedErrorCode
  message : String
deriving DecidableEq

abbrev EmbeddedResult (α : Type) := Except EmbeddedError α

namespace EmbeddedError

def invalid (message : String) : EmbeddedError := ⟨.invalidArgument, message⟩

/-- `capacity` of the governor: a stable capacity refusal. -/
def capacity (message : String) : EmbeddedError := ⟨.capacityExceeded, message⟩

def notFound (message : String) : EmbeddedError := ⟨.notFound, message⟩

def busy (message : String) : EmbeddedError := ⟨.busy, message⟩

def internal (message : String) : EmbeddedError := ⟨.internal, message⟩

end EmbeddedError

/-- How a call that holds a lock can end without a value: a returned error, or an `expect` that
unwinds and poisons the lock. -/
inductive Fault where
  | err (error : EmbeddedError)
  | panic (message : String)
deriving DecidableEq

instance : Coe EmbeddedError Fault := ⟨.err⟩

/-- The result of a call that may also unwind. -/
abbrev Checked (α : Type) := Except Fault α

/-- A call that cannot unwind, inside one that can. -/
def EmbeddedResult.lift {α : Type} (x : EmbeddedResult α) : Checked α := x.mapError .err

def expect {α : Type} (o : Option α) (message : String) : Checked α := okOr o (.panic message)

@[simp] theorem EmbeddedResult.lift_eq_ok {α : Type} {x : EmbeddedResult α} {a : α} :
    x.lift = .ok a ↔ x = .ok a := by
  cases x <;> simp [lift, Except.mapError]

def Checked.Returns {α : Type} (x : Checked α) : Prop := ∀ m, x ≠ .error (.panic m)

namespace Checked
variable {α β : Type}

@[simp] theorem returns_pure {a : α} : Returns (pure a) := fun _ h => nomatch h

@[simp] theorem returns_lift {x : EmbeddedResult α} : Returns x.lift := by
  intro m
  cases x <;> simp [EmbeddedResult.lift, Except.mapError]

@[simp] theorem returns_refuseIf {c : Prop} [Decidable c] {e : EmbeddedError} :
    Returns (refuseIf c (.err e)) := by
  simp [Returns]

@[simp] theorem returns_okOr {o : Option α} {e : EmbeddedError} : Returns (okOr o (.err e)) := by
  simp [Returns]

@[simp] theorem returns_bind {x : Checked α} {f : α → Checked β} :
    Returns (x >>= f) ↔ Returns x ∧ ∀ a, x = .ok a → Returns (f a) := by
  simp only [Returns, ne_eq, Except.bind_eq_error, not_or, not_exists, not_and]
  exact ⟨fun h => ⟨fun m => (h m).1, fun a ha m => (h m).2 a ha⟩,
    fun h m => ⟨h.1 m, fun a ha => h.2 a ha m⟩⟩

@[simp] theorem returns_map {f : α → β} : Returns (f <$> x) ↔ Returns x := by
  cases x <;> simp [Returns, Functor.map, Except.map]

end Checked

/-! ## Text -/

/-- The `White_Space` property that `str::trim` strips. -/
def isWhitespace (c : Char) : Bool :=
  let n := c.toNat
  (9 ≤ n && n ≤ 13) || n == 0x20 || n == 0x85 || n == 0xA0 || n == 0x1680 ||
    (0x2000 ≤ n && n ≤ 0x200A) || n == 0x2028 || n == 0x2029 || n == 0x202F || n == 0x205F ||
    n == 0x3000

def trimIsEmpty (text : String) : Bool := text.toList.all isWhitespace

/-! ## Parent budgets -/

/-- Explicit parent budgets. -/
structure EmbeddedRuntimeConfig where
  maxRegisteredPlugins : ℕ
  maxRegisteredPools : ℕ
  maxSessions : ℕ
  maxRegisteredCapabilities : ℕ
  maxResidentVms : ℕ
  maxRunningCalls : ℕ
  maxQueuedCalls : ℕ
  maxQueuedBytes : ℕ
  maxOperations : ℕ
  maxEffectRecordsPerOperation : ℕ
  maxEffectBytesPerOperation : ℕ
  maxHostRequests : ℕ
  maxHostRequestBytes : ℕ
  maxValueBytes : ℕ
deriving DecidableEq

/-- Zero never means unlimited. -/
def EmbeddedRuntimeConfig.validate (c : EmbeddedRuntimeConfig) : EmbeddedResult Unit := do
  refuseIf (c.maxEffectRecordsPerOperation = 0 ∨ c.maxEffectBytesPerOperation = 0)
    (.invalid "effect retention limits must be positive")
  refuseIf (c.maxRegisteredPlugins = 0 ∨ c.maxRegisteredPools = 0 ∨
      c.maxRegisteredCapabilities = 0 ∨ c.maxSessions = 0)
    (.invalid "registration limits must be positive")
  refuseIf (c.maxResidentVms = 0 ∨ c.maxRunningCalls = 0)
    (.invalid "resident and running limits must be positive")
  refuseIf (c.maxRunningCalls > c.maxResidentVms)
    (.invalid "running limit exceeds resident VM limit")
  refuseIf (c.maxQueuedCalls = 0 ∨ c.maxQueuedBytes = 0)
    (.invalid "queue count and byte limits must be positive")
  refuseIf (c.maxOperations < c.maxRunningCalls ∨ c.maxOperations < c.maxQueuedCalls)
    (.invalid "operation limit must cover running and queue limits individually")
  refuseIf (c.maxHostRequests = 0 ∨ c.maxValueBytes = 0)
    (.invalid "host request and value limits must be positive")
  refuseIf (c.maxValueBytes > c.maxQueuedBytes)
    (.invalid "value byte limit exceeds queue byte limit")
  refuseIf (c.maxValueBytes > c.maxHostRequestBytes)
    (.invalid "value byte limit exceeds host request byte limit")

def EmbeddedRuntimeConfig.WordSized (c : EmbeddedRuntimeConfig) : Prop :=
  ∀ n ∈ [c.maxRegisteredPlugins, c.maxRegisteredPools, c.maxSessions, c.maxRegisteredCapabilities,
    c.maxResidentVms, c.maxRunningCalls, c.maxQueuedCalls, c.maxQueuedBytes, c.maxOperations,
    c.maxEffectRecordsPerOperation, c.maxEffectBytesPerOperation, c.maxHostRequests,
    c.maxHostRequestBytes, c.maxValueBytes], n < wordBound

/-- Parent budgets that passed validation. -/
structure ParentConfig extends EmbeddedRuntimeConfig where
  wordSized : toEmbeddedRuntimeConfig.WordSized
  valid : toEmbeddedRuntimeConfig.validate = .ok ()

/-- The budgets of a small host. -/
def ParentConfig.small : ParentConfig where
  maxRegisteredPlugins := 4
  maxRegisteredPools := 4
  maxSessions := 4
  maxRegisteredCapabilities := 4
  maxResidentVms := 4
  maxRunningCalls := 2
  maxQueuedCalls := 4
  maxQueuedBytes := 64
  maxOperations := 8
  maxEffectRecordsPerOperation := 4
  maxEffectBytesPerOperation := 64
  maxHostRequests := 4
  maxHostRequestBytes := 64
  maxValueBytes := 32
  wordSized := by simp [EmbeddedRuntimeConfig.WordSized, wordBound]
  valid := rfl

theorem ParentConfig.maxResidentVms_lt (c : ParentConfig) : c.maxResidentVms < wordBound :=
  c.wordSized _ (by simp)

/-! ## Physical capacity -/

inductive PoolKind where
  | shared | dedicated
deriving DecidableEq

/-- Physical limits shared by the member pools of one capacity owner. -/
structure VmCapacityConfig where
  kind : PoolKind
  minResidentVms : ℕ
  maxResidentVms : ℕ
  maxRunningCalls : ℕ
deriving DecidableEq

def VmCapacityConfig.validate (c : VmCapacityConfig) (parent : EmbeddedRuntimeConfig) :
    EmbeddedResult Unit := do
  parent.validate
  refuseIf (c.maxResidentVms = 0 ∨ c.maxResidentVms > parent.maxResidentVms)
    (.invalid "group resident limit is outside the parent budget")
  refuseIf (c.minResidentVms > c.maxResidentVms)
    (.invalid "group reservation exceeds its resident limit")
  refuseIf (c.kind = .shared ∧ c.minResidentVms ≠ 0)
    (.invalid "shared groups cannot reserve dedicated capacity")
  refuseIf (c.maxRunningCalls = 0 ∨ c.maxRunningCalls > c.maxResidentVms ∨
      c.maxRunningCalls > parent.maxRunningCalls)
    (.invalid "group running limit is outside the resident or parent budget")

/-- What an accepted capacity policy promises. -/
structure VmCapacityConfig.Valid (c : VmCapacityConfig) (parent : EmbeddedRuntimeConfig) :
    Prop where
  resident_pos : 0 < c.maxResidentVms
  resident_le : c.maxResidentVms ≤ parent.maxResidentVms
  min_le : c.minResidentVms ≤ c.maxResidentVms
  shared_min : c.kind = .shared → c.minResidentVms = 0
  running_pos : 0 < c.maxRunningCalls
  running_le_resident : c.maxRunningCalls ≤ c.maxResidentVms
  running_le : c.maxRunningCalls ≤ parent.maxRunningCalls

theorem VmCapacityConfig.valid_of_validate {c : VmCapacityConfig} (h : c.validate parent = .ok ()) :
    c.Valid parent := by
  simp only [validate, Except.bind_eq_ok, refuseIf_eq_ok] at h
  obtain ⟨_, _, _, h₁, _, h₂, _, h₃, h₄⟩ := h
  refine ⟨by omega, by omega, by omega, fun hk => ?_, by omega, by omega, by omega⟩
  exact Decidable.not_not.1 fun hm => h₃ ⟨hk, hm⟩

/-! ## Execution groups -/

/-- Module-state lifetime. -/
inductive InstanceReuse where
  | singleCall | reusable | session
deriving DecidableEq

inductive ExecutionBackend where
  | inProcess | workerProcess
deriving DecidableEq

structure PluginPoolConfig where
  kind : PoolKind
  minResidentVms : ℕ
  maxResidentVms : ℕ
  maxRunningCalls : ℕ
  maxQueuedCalls : ℕ
  reuse : InstanceReuse
  serial : Bool
  backend : ExecutionBackend
  idleTtlMs : Option ℕ
  maxUses : Option ℕ
deriving DecidableEq

def PluginPoolConfig.dedicated : PluginPoolConfig where
  kind := .dedicated
  minResidentVms := 1
  maxResidentVms := 2
  maxRunningCalls := 1
  maxQueuedCalls := 2
  reuse := .reusable
  serial := false
  backend := .inProcess
  idleTtlMs := none
  maxUses := none

/-- The physical limits alone. -/
def PluginPoolConfig.capacity (c : PluginPoolConfig) : VmCapacityConfig where
  kind := c.kind
  minResidentVms := c.minResidentVms
  maxResidentVms := c.maxResidentVms
  maxRunningCalls := c.maxRunningCalls

def PluginPoolConfig.validate (c : PluginPoolConfig) (parent : EmbeddedRuntimeConfig) :
    EmbeddedResult Unit := do
  parent.validate
  refuseIf (c.backend ≠ .inProcess) ⟨.unsupported, "worker process backend is not available"⟩
  c.capacity.validate parent
  refuseIf (c.serial = true ∧ c.maxRunningCalls ≠ 1)
    (.invalid "serial groups must declare exactly one running call")
  refuseIf (c.maxQueuedCalls = 0 ∨ c.maxQueuedCalls > parent.maxQueuedCalls)
    (.invalid "group queue limit is outside the parent budget")
  refuseIf (c.idleTtlMs = some 0 ∨ c.maxUses = some 0)
    (.invalid "optional idle and reuse limits must be positive")

theorem PluginPoolConfig.valid_of_validate {c : PluginPoolConfig} (h : c.validate parent = .ok ()) :
    c.capacity.Valid parent := by
  simp only [validate, Except.bind_eq_ok, refuseIf_eq_ok] at h
  obtain ⟨_, _, _, _, _, h, _⟩ := h
  exact VmCapacityConfig.valid_of_validate h

end LuaSkills.Embedded
