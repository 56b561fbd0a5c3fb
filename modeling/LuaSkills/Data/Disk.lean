import Mathlib.Data.Nat.Notation
import Mathlib.Logic.Function.Basic

/-!
# Programs over a disk whose calls can fail

A `DiskProg` may stop with an error; the disk keeps what it did until then. Each call takes the
environment's answer: a rename, a creation, a probe or the removal of a file takes place or leaves
the disk as it was, a failed write may leave a cut text, and a failed removal of a directory may
leave a part of its entries.
-/

/-- What a path holds: the text of a file, or the files below a directory with their texts. -/
inductive DiskNode where
  | file (text : String)
  | dir (entries : List (String × String))
deriving DecidableEq

abbrev Disk (P : Type) := P → Option DiskNode

/-- The answer to a call that takes place or changes nothing. -/
inductive IoAnswer where
  | ok
  | fail (error : String)
deriving DecidableEq

/-- The answer to a write: a refused one does not open the file, a torn one leaves the first `length`
characters of the text. -/
inductive WriteAnswer where
  | ok
  | refused (error : String)
  | torn (length : ℕ) (error : String)
deriving DecidableEq

/-- The answer to the removal of a directory: a failed one leaves the entries that `kept` names. -/
inductive RemovalAnswer where
  | ok
  | fail (kept : String → Bool) (error : String)

def DiskProg (P α : Type) := Disk P → Except String α × Disk P

namespace DiskProg
variable {P α β : Type}

instance : Monad (DiskProg P) where
  pure a := fun d => (.ok a, d)
  bind x f := fun d =>
    match x d with
    | (.ok a, d') => f a d'
    | (.error e, d') => (.error e, d')

/-- A computation that does not look at the disk. -/
def lift (x : Except String α) : DiskProg P α := fun d => (x, d)

def mapErr (f : String → String) (x : DiskProg P α) : DiskProg P α := fun d =>
  match x d with
  | (.ok a, d') => (.ok a, d')
  | (.error e, d') => (.error (f e), d')

/-- The outcome of a program as a value: it never stops the caller. -/
def attempt (x : DiskProg P α) : DiskProg P (Except String α) := fun d => (.ok (x d).1, (x d).2)

/-- The program followed, when it stops, by a clean-up whose outcome is ignored. -/
def onError (x : DiskProg P α) (cleanup : DiskProg P Unit) : DiskProg P α := fun d =>
  match x d with
  | (.ok a, d') => (.ok a, d')
  | (.error e, d') => (.error e, (cleanup d').2)

section
variable {x : DiskProg P α} {f : α → DiskProg P β} {d d' : Disk P} {a : α} {b : β} {e : String}

theorem pure_apply : (pure a : DiskProg P α) d = (.ok a, d) := rfl

@[simp] theorem pure_eq : (pure a : DiskProg P α) d = r ↔ r = (.ok a, d) := eq_comm

theorem bind_of_ok (h : x d = (.ok a, d')) : (x >>= f) d = f a d' := by
  simp only [bind, h]

theorem bind_of_error (h : x d = (.error e, d')) : (x >>= f) d = (.error e, d') := by
  simp only [bind, h]

theorem bind_eq_ok :
    (x >>= f) d = (.ok b, d') ↔ ∃ a d₁, x d = (.ok a, d₁) ∧ f a d₁ = (.ok b, d') := by
  rcases hx : x d with ⟨r, d₁⟩
  cases r with
  | error e => simp [bind, hx]
  | ok a =>
    rw [bind_of_ok hx]
    exact ⟨fun h => ⟨a, d₁, rfl, h⟩, fun ⟨_, _, heq, h⟩ => by cases heq; exact h⟩

theorem bind_eq_error :
    (x >>= f) d = (.error e, d') ↔
      x d = (.error e, d') ∨ ∃ a d₁, x d = (.ok a, d₁) ∧ f a d₁ = (.error e, d') := by
  rcases hx : x d with ⟨r, d₁⟩
  cases r with
  | error e => simp [bind, hx]
  | ok a =>
    rw [bind_of_ok hx]
    refine ⟨fun h => Or.inr ⟨a, d₁, rfl, h⟩, ?_⟩
    rintro (heq | ⟨_, _, heq, h⟩)
    · cases heq
    · cases heq
      exact h

@[simp] theorem lift_eq_ok {y : Except String α} :
    (lift y : DiskProg P α) d = (.ok a, d') ↔ y = .ok a ∧ d' = d := by
  simp [lift, eq_comm]

@[simp] theorem lift_eq_error {y : Except String α} :
    (lift y : DiskProg P α) d = (.error e, d') ↔ y = .error e ∧ d' = d := by
  simp [lift, eq_comm]

@[simp] theorem mapErr_eq_ok : mapErr g x d = (.ok a, d') ↔ x d = (.ok a, d') := by
  rcases hx : x d with ⟨r, d₁⟩
  cases r <;> simp [mapErr, hx]

@[simp] theorem mapErr_eq_error :
    mapErr g x d = (.error e, d') ↔ ∃ e₀, x d = (.error e₀, d') ∧ g e₀ = e := by
  rcases hx : x d with ⟨r, d₁⟩
  cases r with
  | ok a => simp [mapErr, hx]
  | error e₀ =>
    simp only [mapErr, hx, Prod.mk.injEq, Except.error.injEq]
    exact ⟨fun ⟨he, hd⟩ => ⟨e₀, ⟨rfl, hd⟩, he⟩, fun ⟨_, ⟨he₀, hd⟩, he⟩ => ⟨he₀ ▸ he, hd⟩⟩

@[simp] theorem attempt_eq : attempt x d = r ↔ r = (.ok (x d).1, (x d).2) := eq_comm

@[simp] theorem onError_eq_ok : onError x c d = (.ok a, d') ↔ x d = (.ok a, d') := by
  rcases hx : x d with ⟨r, d₁⟩
  cases r <;> simp [onError, hx]

theorem onError_eq_error : onError x c d = (.error e, d') ↔ ∃ d₁, x d = (.error e, d₁) ∧ d' = (c d₁).2 := by
  rcases hx : x d with ⟨r, d₁⟩
  cases r with
  | ok a => simp [onError, hx]
  | error e₀ =>
    simp only [onError, hx, Prod.mk.injEq, Except.error.injEq]
    exact ⟨fun ⟨he, hd⟩ => ⟨d₁, ⟨he, rfl⟩, hd.symm⟩,
      fun ⟨_, ⟨he, hd⟩, h⟩ => ⟨he, by rw [h, hd]⟩⟩

end

end DiskProg

/-! ## Calls -/

namespace Disk
variable {P : Type}

/-- A path that a rename may replace. -/
def Vacant (node : Option DiskNode) : Prop := node = none ∨ node = some (.dir [])

instance (node : Option DiskNode) : Decidable (Vacant node) := by
  unfold Vacant
  infer_instance

/-- The first characters of a text: a torn write is cut between characters. A cut inside one leaves a
file that is no text, which reads like a text that does not parse. -/
def cut (length : ℕ) (text : String) : String := String.ofList (text.toList.take length)

/-- A directory tree after a removal that failed. -/
def pruned (kept : String → Bool) (entries : List (String × String)) : List (String × String) :=
  entries.filter fun entry => kept entry.1

def createDirAll (answer : IoAnswer) : DiskProg P Unit := fun d =>
  match answer with
  | .ok => (.ok (), d)
  | .fail e => (.error e, d)

/-- What a path holds; `none` when it is confirmed absent. -/
def metadata (answer : IoAnswer) (p : P) : DiskProg P (Option DiskNode) := fun d =>
  match answer with
  | .ok => (.ok (d p), d)
  | .fail e => (.error e, d)

def readToString (answer : IoAnswer) (p : P) : DiskProg P String := fun d =>
  match answer, d p with
  | .ok, some (.file text) => (.ok text, d)
  | .ok, _ => (.error "not a readable file", d)
  | .fail e, _ => (.error e, d)

section
variable [DecidableEq P]

def rename (answer : IoAnswer) (source target : P) : DiskProg P Unit := fun d =>
  match answer, d source with
  | .ok, some node =>
    if Vacant (d target) then
      (.ok (), Function.update (Function.update d source none) target (some node))
    else (.error "directory not empty", d)
  | .ok, none => (.error "entity not found", d)
  | .fail e, _ => (.error e, d)

def write (answer : WriteAnswer) (p : P) (text : String) : DiskProg P Unit := fun d =>
  match answer, d p with
  | .refused e, _ => (.error e, d)
  | _, some (.dir _) => (.error "is a directory", d)
  | .ok, _ => (.ok (), Function.update d p (some (.file text)))
  | .torn length e, _ => (.error e, Function.update d p (some (.file (cut length text))))

def removeFile (answer : IoAnswer) (p : P) : DiskProg P Unit := fun d =>
  match answer, d p with
  | .ok, some (.file _) => (.ok (), Function.update d p none)
  | .ok, _ => (.error "not a file", d)
  | .fail e, _ => (.error e, d)

def removeDirAll (answer : RemovalAnswer) (p : P) : DiskProg P Unit := fun d =>
  match answer, d p with
  | .ok, some (.dir _) => (.ok (), Function.update d p none)
  | .fail kept e, some (.dir entries) =>
    (.error e, Function.update d p (some (.dir (pruned kept entries))))
  | .fail _ e, _ => (.error e, d)
  | .ok, _ => (.error "not a directory", d)

end

section
variable {d d' : Disk P} {p source target : P} {e : String}

@[simp] theorem createDirAll_eq_ok : createDirAll a d = (.ok u, d') ↔ a = .ok ∧ d' = d := by
  cases a <;> simp [createDirAll, eq_comm]

@[simp] theorem createDirAll_eq_error : createDirAll a d = (.error e, d') ↔ a = .fail e ∧ d' = d := by
  cases a <;> simp [createDirAll, eq_comm]

@[simp] theorem metadata_eq_ok : metadata a p d = (.ok node, d') ↔ a = .ok ∧ d p = node ∧ d' = d := by
  cases a <;> simp [metadata, eq_comm]

@[simp] theorem readToString_eq_ok :
    readToString a p d = (.ok text, d') ↔ a = .ok ∧ d p = some (.file text) ∧ d' = d := by
  unfold readToString
  split <;> simp_all [eq_comm]

theorem readToString_error (h : readToString a p d = (.error e, d')) : d' = d := by
  unfold readToString at h
  split at h <;> simp_all

section
variable [DecidableEq P]

@[simp] theorem rename_eq_ok :
    rename a source target d = (.ok u, d') ↔ a = .ok ∧ ∃ node, d source = some node ∧
      Vacant (d target) ∧
      d' = Function.update (Function.update d source none) target (some node) := by
  unfold rename
  split
  · next node hnode =>
    by_cases hv : Vacant (d target)
    · simp [hv, hnode, eq_comm]
    · simp [hv]
  · next hnode => simp [hnode]
  · simp

theorem rename_error (h : rename a source target d = (.error e, d')) : d' = d := by
  unfold rename at h
  split at h
  · split at h <;> simp_all
  · simp_all
  · simp_all

@[simp] theorem removeFile_eq_ok : removeFile a p d = (.ok u, d') ↔
      a = .ok ∧ (∃ text, d p = some (.file text)) ∧ d' = Function.update d p none := by
  unfold removeFile
  split <;> simp_all [eq_comm]

theorem removeFile_error (h : removeFile a p d = (.error e, d')) : d' = d := by
  unfold removeFile at h
  split at h <;> simp_all

@[simp] theorem removeDirAll_eq_ok : removeDirAll a p d = (.ok u, d') ↔
      a = .ok ∧ (∃ entries, d p = some (.dir entries)) ∧ d' = Function.update d p none := by
  unfold removeDirAll
  split <;> simp_all [eq_comm]

theorem removeDirAll_error (hp : d p = some (.dir entries)) :
    removeDirAll a p d = (.error e, d') ↔ ∃ kept, a = .fail kept e ∧
      d' = Function.update d p (some (.dir (pruned kept entries))) := by
  cases a with
  | ok => simp [removeDirAll, hp]
  | fail kept e₀ =>
    simp only [removeDirAll, hp, Prod.mk.injEq, Except.error.injEq, RemovalAnswer.fail.injEq]
    exact ⟨fun ⟨he, hd⟩ => ⟨kept, ⟨rfl, he⟩, hd.symm⟩, fun ⟨_, ⟨hk, he⟩, hd⟩ => ⟨he, by rw [hd, hk]⟩⟩

end

end

end Disk

/-! ## Programs that touch one path -/

namespace DiskProg
variable {P α β : Type}

/-- The program leaves every path other than `p` as it is, however it ends. -/
def Confined (p : P) (x : DiskProg P α) : Prop :=
  ∀ d q, q ≠ p → (x d).2 q = d q

namespace Confined
variable {p : P} {x : DiskProg P α}

theorem apply (h : Confined p x) {r : Except String α} (hx : x d = (r, d')) (hq : q ≠ p) : d' q = d q := by
  have := h d q hq
  rwa [hx] at this

theorem pure {a : α} : Confined p (Pure.pure a : DiskProg P α) := fun _ _ _ => rfl

theorem lift {y : Except String α} : Confined p (DiskProg.lift y : DiskProg P α) :=
  fun _ _ _ => rfl

theorem bind {f : α → DiskProg P β} (hx : Confined p x) (hf : ∀ a, Confined p (f a)) :
    Confined p (x >>= f) := by
  intro d q hq
  rcases h : x d with ⟨r, d₁⟩
  cases r with
  | ok a => rw [bind_of_ok h, hf a d₁ q hq, hx.apply h hq]
  | error e =>
    rw [bind_of_error h]
    exact hx.apply h hq

theorem mapErr (hx : Confined p x) : Confined p (DiskProg.mapErr g x) := by
  intro d q hq
  have h := hx d q hq
  unfold DiskProg.mapErr
  split <;> simp_all

theorem attempt (hx : Confined p x) : Confined p (DiskProg.attempt x) := hx

theorem createDirAll : Confined p (Disk.createDirAll a) := by
  intro d q _
  cases a <;> rfl

theorem removeDirAll [DecidableEq P] {a : RemovalAnswer} : Confined p (Disk.removeDirAll a p) := by
  intro d q hq
  unfold Disk.removeDirAll
  split <;> simp [Function.update_of_ne hq]

end Confined

/-! ## Programs that only read, and programs whose errors change nothing -/

def Inert (x : DiskProg P α) : Prop := ∀ d, (x d).2 = d

def Undone (x : DiskProg P α) : Prop := ∀ d e d', x d = (.error e, d') → d' = d

section
variable {x : DiskProg P α} {f : α → DiskProg P β}

theorem Inert.lift {y : Except String α} : Inert (DiskProg.lift y : DiskProg P α) := fun _ => rfl

theorem Inert.bind_undone (hx : Inert x) (hf : ∀ a, Undone (f a)) : Undone (x >>= f) := by
  intro d e d' h
  rcases hr : x d with ⟨r, d₁⟩
  have hd : d₁ = d := by
    have := hx d
    rwa [hr] at this
  cases r with
  | error e =>
    rw [bind_of_error hr] at h
    cases h
    exact hd
  | ok a =>
    rw [bind_of_ok hr] at h
    rw [hf a d₁ e d' h, hd]

theorem Undone.bind_pure (hx : Undone x) {g : α → β} : Undone (x >>= fun a => pure (g a)) := by
  intro d e d' h
  rcases bind_eq_error.1 h with h | ⟨a, d₁, -, h⟩
  · exact hx d e d' h
  · cases h

end

end DiskProg
