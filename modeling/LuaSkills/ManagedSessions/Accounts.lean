import LuaSkills.ManagedSessions.Services
import LuaSkills.Data.Custody
import LuaSkills.Data.EventLog

/-!
# Who has what

A teardown has the records it detached, a launch has its session, a section that removed a session has its
token, and a section that is about to queue a session owes that. The section of code that runs takes these
into its hand and puts them down again; the accounts of the state are kept by every such move.
-/

namespace LuaSkills.ManagedSessions

open AList Function List Option

inductive Owner where
  | task (task : ℕ)
  | hand
deriving DecidableEq

structure Hand where
  records : List (ℕ × SessionRecord)
  launch : List ℕ
  carries : List ManagedSessionEventToken
  owes : List ℕ

namespace Hand

def empty : Hand := ⟨[], [], [], []⟩

def add (η more : Hand) : Hand :=
  ⟨η.records ++ more.records, η.launch ++ more.launch, η.carries ++ more.carries,
    η.owes ++ more.owes⟩

def held (η : Hand) : List ℕ := η.records.map Prod.fst

end Hand

def CleanupPhase.carries : CleanupPhase → List ManagedSessionEventToken
  | .token held => held.toList
  | _ => []

def TeardownPhase.carries : TeardownPhase → List ManagedSessionEventToken
  | .cleaning phase => phase.carries
  | _ => []

def TeardownPhase.owes : TeardownPhase → List ℕ
  | .enqueue s => [s]
  | _ => []

def RetryTarget.sessions : RetryTarget → List ℕ
  | .session s => [s]
  | .owner _ => []

def Task.hand : Task → Hand
  | .reserving s _ | .reservation s | .removing s _ => ⟨[], [s], [], []⟩
  | .registered s token => ⟨[], [s], token.toList, []⟩
  | .dropping _ token _ => ⟨[], [], token.toList, []⟩
  | .orphan _ phase | .userdata _ phase _ => ⟨[], [], phase.elim [] CleanupPhase.carries, []⟩
  | .retrying target | .enqueueing target _ => ⟨[], [], [], target.sessions⟩
  | .tearing job => ⟨job.records, [], job.phase.carries, job.phase.owes⟩
  | .transaction _ | .checking .. => .empty

/-- The session of a launch that has no handle yet. -/
def Task.fresh : Task → Option ℕ
  | .reserving s _ | .registered s _ | .reservation s => some s
  | _ => none

/-- The session of a launch whose record has no token yet. -/
def Task.bare : Task → Option ℕ
  | .reserving s _ | .registered s _ => some s
  | _ => none

/-- The session of a launch whose token is not registered yet. -/
def Task.unborn : Task → Option ℕ
  | .reserving s _ => some s
  | _ => none

def Event.session : Event → ℕ
  | .reserved s _ | .refused s | .activated s | .killed s | .ran s | .released s => s

def Reserved (log : List Event) (s : ℕ) : Prop := ∃ id, .reserved s id ∈ log

/-- A record has its process from its activation on, and carries tokens of its session. -/
structure SessionRecord.Fits (log : List Event) (s : ℕ) (r : SessionRecord) : Prop where
  reserved : Reserved log s
  process : r.process ↔ .activated s ∈ log
  cleanup : r.cleanup → r.process
  token : ∀ token ∈ r.eventToken, token.managedSessionId = s

def CleanupPhase.Fits (log : List Event) (s : ℕ) : CleanupPhase → Prop
  | .take => .killed s ∈ log
  | _ => .ran s ∈ log

/-- What the phase of a teardown tells about its first record. -/
def TeardownPhase.Fits (log : List Event) (s : ℕ) (r : SessionRecord) : TeardownPhase → Prop
  | .token | .enqueue _ => True
  | .kill | .judge | .settle false true => r.eventToken = none
  | .cleaning phase => r.eventToken = none ∧ phase.Fits log s
  | .check | .settle false false => r.eventToken = none ∧ .killed s ∈ log
  | .settle true _ => r.eventToken = none ∧ (r.process → .killed s ∈ log)

def Task.Fits (log : List Event) : Task → Prop
  | .reserving s token | .registered s token => ∀ held ∈ token, held.managedSessionId = s
  | .orphan s phase | .userdata s phase _ => Reserved log s ∧ ∀ p ∈ phase, p.Fits log s
  | .dropping s .. => Reserved log s
  | .tearing job => (∀ s r rest, job.records = (s, r) :: rest → job.phase.Fits log s r) ∧
      (job.records = [] → job.phase.carries = [])
  | _ => True

/-- A language callback runs once, and after its process is gone. -/
def Legal (before : List Event) : Event → Prop
  | .ran s => .ran s ∉ before ∧ .killed s ∈ before
  | _ => True

def possess {α : Type} (kind : Hand → List α) (η : Hand) (tasks : AssocMap ℕ Task) : Owner → List α
  | .task t => ((tasks.lookup t).map fun task => kind task.hand).getD []
  | .hand => kind η

def Possessed {α : Type} (kind : Hand → List α) (η : Hand) (tasks : AssocMap ℕ Task) (a : α) : Prop :=
  ∃ o, a ∈ possess kind η tasks o

/-- The registered token belongs to a registered session, to a record that is being torn down, or to a
section that is about to unregister it or to hand it out. -/
def World.Located (w : World) (η : Hand) (token : ManagedSessionEventToken) : Prop :=
  (∃ r, w.sessions.lookup token.managedSessionId = some r ∧ r.eventToken = some token) ∨
    Possessed Hand.carries η w.tasks token ∨
      ∃ s r, Possessed Hand.records η w.tasks (s, r) ∧ r.eventToken = some token

structure World.Inv (w : World) (η : Hand) : Prop where
  capacity : w.sessions.size + w.retiringSessions.size ≤ w.limit
  disjoint : ∀ s ∈ w.sessions, s ∉ w.retiringSessions
  held : Custody (possess Hand.held η w.tasks)
  retiring : ∀ s, s ∈ w.retiringSessions ↔ Possessed Hand.held η w.tasks s
  launches : Custody (possess Hand.launch η w.tasks)
  launching : ∀ s, Possessed Hand.launch η w.tasks s → Reserved w.log s ∧ .activated s ∉ w.log
  registered : ∀ s r, w.sessions.lookup s = some r → r.Fits w.log s
  detached : ∀ s r, Possessed Hand.records η w.tasks (s, r) → r.Fits w.log s
  fits : ∀ t task, w.tasks.lookup t = some task → task.Fits w.log
  fresh : ∀ t task, w.tasks.lookup t = some task → ∀ s ∈ task.fresh, w.handles.lookup s = none
  bare : ∀ t task, w.tasks.lookup t = some task → ∀ s ∈ task.bare, ∀ r, w.sessions.lookup s = some r →
    r.eventToken = none
  unborn : ∀ t task, w.tasks.lookup t = some task → ∀ s ∈ task.unborn, ∀ token ∈ w.registeredSessions,
    token.managedSessionId ≠ s
  mentioned : ∀ e ∈ w.log, e.session ≤ w.nextSessionId
  handles : ∀ s h, w.handles.lookup s = some h → (h.pending = false ↔ .ran s ∈ w.log) ∧
    (h.finished → h.pending = false)
  ran : ∀ s, .ran s ∈ w.log → s ∈ w.handles
  legal : LegalLog Legal w.log
  alive : ∀ s, .activated s ∈ w.log → .killed s ∈ w.log ∨ s ∈ w.sessions ∨ s ∈ w.retiringSessions
  failed : ∀ s ∈ w.failed, s ∈ w.sessions ∧
    (.session s ∈ w.targets ∨ Possessed Hand.owes η w.tasks s)
  tokens : (w.registeredSessions.map ManagedSessionEventToken.managedSessionId).Nodup
  located : ∀ token ∈ w.registeredSessions, w.Located η token
  joined : ∀ id r, w.transactions.lookup id = some r → ∀ s, s ∈ r.sessionIds ↔
    .reserved s (some id) ∈ w.log ∧ .released s ∉ w.log
  begun : ∀ s id, .reserved s (some id) ∈ w.log → id ≤ w.nextTransactionId
  opened : ∀ id ∈ w.transactions, id ≤ w.nextTransactionId
  handled : ∀ s ∈ w.handles, Reserved w.log s
  known : ∀ token ∈ w.registeredSessions, Reserved w.log token.managedSessionId

variable {η : Hand} {tasks : AssocMap ℕ Task} {task : Task} {t s : ℕ} {α : Type}
  {kind : Hand → List α} {a : α} {log : List Event} {r : SessionRecord} {more : List Event}

/-! ## Possessions -/

theorem possess_insert : possess kind η (tasks.insert t task) =
    update (possess kind η tasks) (.task t) (kind task.hand) := by
  funext o
  cases o with
  | task t' =>
    by_cases h : t' = t
    · rw [h, update_self]
      simp only [possess, lookup_insert, map_some, getD_some]
    · rw [update_of_ne fun heq => h (Owner.task.inj heq)]
      simp only [possess, lookup_insert_ne h]
  | hand => simp only [possess, ne_eq, reduceCtorEq, not_false_eq_true, update_of_ne]

theorem possess_erase : possess kind η (tasks.erase t) =
    update (possess kind η tasks) (.task t) [] := by
  funext o
  cases o with
  | task t' =>
    by_cases h : t' = t
    · rw [h, update_self]
      simp only [possess, lookup_erase, map_none, getD_none]
    · rw [update_of_ne fun heq => h (Owner.task.inj heq)]
      simp only [possess, lookup_erase_ne h]
  | hand => simp only [possess, ne_eq, reduceCtorEq, not_false_eq_true, update_of_ne]

theorem possess_hand : possess kind θ tasks =
    update (possess kind η tasks) .hand (kind θ) := by
  funext o
  cases o with
  | hand => rw [update_self]; rfl
  | task => simp only [possess, ne_eq, reduceCtorEq, not_false_eq_true, update_of_ne]

theorem possess_lookup (ht : tasks.lookup t = some task) : possess kind η tasks (.task t) = kind task.hand := by
  simp only [possess, ht, map_some, getD_some]

theorem possess_none (ht : t ∉ tasks) : possess kind η tasks (.task t) = [] := by
  simp only [possess, lookup_eq_none.2 ht, map_none, getD_none]

theorem possess_take (hadd : kind (η.add task.hand) = kind η ++ kind task.hand) :
    possess kind (η.add task.hand) (tasks.erase t) =
      update (update (possess kind η tasks) (.task t) []) .hand
        (kind η ++ kind task.hand) := by
  rw [possess_hand (η := η), possess_erase, hadd]

theorem possess_put : possess kind η (tasks.insert t task) =
    update (update (possess kind (η.add task.hand) tasks) .hand (kind η)) (.task t)
      (kind task.hand) := by
  rw [possess_insert, possess_hand (η := η.add task.hand)]

theorem Possessed.of_task (ht : tasks.lookup t = some task) (h : a ∈ kind task.hand) :
    Possessed kind η tasks a := ⟨.task t, by rwa [possess_lookup ht]⟩

theorem Possessed.of_hand (h : a ∈ kind η) : Possessed kind η tasks a := ⟨.hand, h⟩

theorem possessed_take (hadd : kind (η.add task.hand) = kind η ++ kind task.hand)
    (ht : tasks.lookup t = some task) :
    Possessed kind (η.add task.hand) (tasks.erase t) a ↔ Possessed kind η tasks a := by
  unfold Possessed
  rw [possess_take hadd]
  exact Custody.mem_move nofun (m := kind task.hand) (by rw [possess_lookup ht]; exact .refl _) (.refl _)

theorem possessed_put (hadd : kind (η.add task.hand) = kind η ++ kind task.hand) (ht : t ∉ tasks) :
    Possessed kind η (tasks.insert t task) a ↔ Possessed kind (η.add task.hand) tasks a := by
  unfold Possessed
  rw [possess_put]
  exact Custody.mem_move nofun (m := kind task.hand) (by rw [← hadd]; exact .refl _)
    (by rw [possess_none ht]; exact .refl _)

theorem custody_take (C : Custody (possess kind η tasks))
    (hadd : kind (η.add task.hand) = kind η ++ kind task.hand) (ht : tasks.lookup t = some task) :
    Custody (possess kind (η.add task.hand) (tasks.erase t)) := by
  rw [possess_take hadd]
  exact C.move nofun (m := kind task.hand) (by rw [possess_lookup ht]; exact .refl _) (.refl _)

theorem custody_put (C : Custody (possess kind (η.add task.hand) tasks))
    (hadd : kind (η.add task.hand) = kind η ++ kind task.hand) (ht : t ∉ tasks) :
    Custody (possess kind η (tasks.insert t task)) := by
  rw [possess_put]
  exact C.move nofun (m := kind task.hand) (by rw [← hadd]; exact .refl _)
    (by rw [possess_none ht]; exact .refl _)

/-- What the hand gains or lets go of is all that changes. -/
theorem possessed_hand (h : Possessed kind θ tasks a) : a ∈ kind θ ∨ Possessed kind η tasks a := by
  obtain ⟨o, ho⟩ := h
  cases o with
  | hand => exact .inl ho
  | task t => exact .inr ⟨.task t, ho⟩

theorem Possessed.mono (h : Possessed kind η tasks a) (hsub : a ∈ kind η → a ∈ kind θ) :
    Possessed kind θ tasks a :=
  (possessed_hand h).elim (fun ha => .of_hand (hsub ha)) id

theorem Hand.held_add {η more : Hand} : (η.add more).held = η.held ++ more.held :=
  map_append

/-! ## What stays true as the log grows -/

theorem Reserved.append (h : Reserved log s) : Reserved (log ++ more) s :=
  h.imp fun _ => mem_append_left _

theorem CleanupPhase.Fits.append {phase : CleanupPhase} (h : phase.Fits log s) :
    phase.Fits (log ++ more) s := by
  cases phase with
  | take | callback | token | finish => exact mem_append_left _ h

theorem TeardownPhase.Fits.append {phase : TeardownPhase} (h : phase.Fits log s r) :
    phase.Fits (log ++ more) s r := by
  cases phase with
  | token | enqueue | kill | judge => exact h
  | cleaning => exact ⟨h.1, h.2.append⟩
  | check => exact ⟨h.1, mem_append_left _ h.2⟩
  | settle ok retry =>
    cases ok <;> cases retry
    · exact ⟨h.1, mem_append_left _ h.2⟩
    · exact h
    · exact ⟨h.1, fun hp => mem_append_left _ (h.2 hp)⟩
    · exact ⟨h.1, fun hp => mem_append_left _ (h.2 hp)⟩

theorem Task.Fits.append (h : task.Fits log) : task.Fits (log ++ more) := by
  cases task with
  | orphan | userdata => exact ⟨h.1.append, fun p hp => (h.2 p hp).append⟩
  | dropping => exact Reserved.append h
  | tearing job => exact ⟨fun s r rest hrecords => (h.1 s r rest hrecords).append, h.2⟩
  | _ => exact h

/-- A record fits a longer log in which it is not activated. -/
theorem SessionRecord.Fits.append (h : r.Fits log s) (hmore : .activated s ∉ more) :
    r.Fits (log ++ more) s where
  reserved := h.reserved.append
  process := by
    rw [h.process, mem_append]
    exact ⟨.inl, fun hmem => hmem.resolve_right hmore⟩
  cleanup := h.cleanup
  token := h.token

end LuaSkills.ManagedSessions
