import LuaSkills.ProcessSession.Reaper
import LuaSkills.Data.EventLog

/-!
# Who owns what

The accounts of a world: the reserved slots, the children and the keepalive actions in their owners'
hands, and the log. A section of code takes what it needs into its own hand and puts it down elsewhere;
each of these moves keeps the accounts, so that a step is kept by the moves it consists of.
-/

namespace LuaSkills.ProcessSession

open AList Option

/-- Who may own a child or a keepalive action: `hand` is the section of code that runs. An action that
was released stays in the last hand. -/
inductive Owner where
  | caller (task : ℕ)
  | session (session : ℕ)
  | reaper
  | hand
  | released
deriving DecidableEq

/-- What the section of code that runs has in its hand. -/
structure Hand where
  permits : ℕ
  children : List ℕ
  keepalives : List ℕ

def Hand.empty : Hand := ⟨0, [], []⟩

def Hand.add (η more : Hand) : Hand :=
  ⟨η.permits + more.permits, η.children ++ more.children, η.keepalives ++ more.keepalives⟩

def Task.hand : Task → Hand
  | .reserved keepalive => ⟨1, [], keepalive⟩
  | .spawned child keepalive | .unattached child keepalive => ⟨1, [child], keepalive⟩
  | .oneShot child .. | .finalizing child .. => ⟨1, [child], []⟩
  | .killing .. | .cleaning .. => .empty

def ManagedProcessSessionState.hand (state : ManagedProcessSessionState) : Hand :=
  ⟨if state.reaperPermit then 1 else 0, state.child.toList, state.finalReaperKeepalive⟩

def Event.release : Event → Option ℕ
  | .released k => some k
  | _ => none

def holdings (kind : Hand → List ℕ) (reaper released : List ℕ) (η : Hand) (tasks : AssocMap ℕ Task)
    (sessions : AssocMap ℕ ManagedProcessSessionState) : Owner → List ℕ
  | .caller t => ((tasks.lookup t).map fun task => kind task.hand).getD []
  | .session s => ((sessions.lookup s).map fun state => kind state.hand).getD []
  | .reaper => reaper
  | .hand => kind η
  | .released => released

def World.records (w : World) : List DetachedChildReapRecord := w.queue ++ w.pass.records

def World.childrenOf (w : World) (η : Hand) : Owner → List ℕ :=
  holdings Hand.children (w.records.map (·.child)) [] η w.tasks w.sessions

def World.keepalivesOf (w : World) (η : Hand) : Owner → List ℕ :=
  holdings Hand.keepalives (w.records.flatMap (·.keepalive)) (w.log.filterMap Event.release) η w.tasks
    w.sessions

/-- The permits that are neither consumed nor dropped. -/
def World.livePermits (w : World) : ℕ :=
  w.tasks.sumBy (fun _ task => task.hand.permits) + w.sessions.sumBy fun _ state => state.hand.permits

/-- The session whose cached status the task has seen. -/
def Task.knows : Task → Option ℕ
  | .killing s .reaped _ | .killing s .settled _ | .cleaning s true => some s
  | _ => none

def Task.saw : Task → Option ℕ
  | .oneShot child _ true | .finalizing child _ true => some child
  | _ => none

/-- A session without a permit, or with a cached status, has no child left to collect. -/
structure ManagedProcessSessionState.Settled (processes : AssocMap ℕ Process)
    (state : ManagedProcessSessionState) : Prop where
  permit : state.reaperPermit = false → state.finalStatus
  status : state.finalStatus → ∀ c ∈ state.child, processes.lookup c = some .reaped
  child : state.child.isSome

/-- A child is collected once; a keepalive is handed off once and released once, and after its child was
collected if it was handed off with one. -/
def Legal (before : List Event) : Event → Prop
  | .reaped c => .reaped c ∉ before
  | .handedOff _ keepalive => ∀ k ∈ keepalive, .released k ∉ before ∧
    ∀ c ks, .handedOff c ks ∈ before → k ∉ ks
  | .released k => .released k ∉ before ∧ ∀ c ks, .handedOff c ks ∈ before → k ∈ ks → .reaped c ∈ before

structure World.Inv (w : World) (η : Hand) : Prop where
  reserved : w.reserved = w.livePermits + η.permits + w.queue.length + w.pass.pending.length
  bounded : w.reserved ≤ detachedChildReaperCapacity
  children : Conserved (w.childrenOf η) w.nextChild fun c => w.processes.lookup c = some .reaped
  keepalives : Conserved (w.keepalivesOf η) w.nextKeepalive fun _ => False
  spawned : ∀ c p, w.processes.lookup c = some p → c < w.nextChild
  collected : ∀ c, .reaped c ∈ w.log ↔ w.processes.lookup c = some .reaped
  saw : ∀ t task, w.tasks.lookup t = some task → ∀ c ∈ task.saw, w.processes.lookup c = some .reaped
  knows : ∀ t task, w.tasks.lookup t = some task → ∀ s ∈ task.knows, ∀ state,
    w.sessions.lookup s = some state → state.finalStatus
  on : ∀ t task, w.tasks.lookup t = some task → ∀ s ∈ task.session, s < w.nextSession
  settled : ∀ s state, w.sessions.lookup s = some state → state.Settled w.processes
  opened : ∀ s state, w.sessions.lookup s = some state → s < w.nextSession
  passed : ∀ r ∈ w.pass.records, w.processes.lookup r.child = some .reaped
  handed : ∀ c ks, .handedOff c ks ∈ w.log → ∀ k ∈ ks, .released k ∈ w.log ∨
    ∃ r ∈ w.records, r.child = c ∧ k ∈ r.keepalive
  legal : LegalLog Legal w.log

variable {η : Hand} {tasks : AssocMap ℕ Task}
  {sessions : AssocMap ℕ ManagedProcessSessionState} {state : ManagedProcessSessionState} {task : Task}
  {t s : ℕ} {kind : Hand → List ℕ} {reaper reaper' released released' : List ℕ}

/-! ## Holdings -/

theorem holdings_insertTask : holdings kind reaper released η (tasks.insert t task) sessions =
    Function.update (holdings kind reaper released η tasks sessions) (.caller t) (kind task.hand) := by
  funext o
  cases o with
  | caller t' =>
    by_cases h : t' = t
    · rw [h, Function.update_self]
      simp only [holdings, lookup_insert, map_some, getD_some]
    · rw [Function.update_of_ne fun heq => h (Owner.caller.inj heq)]
      simp only [holdings, lookup_insert_ne h]
  | session | reaper | hand | released => simp only [holdings, ne_eq, reduceCtorEq, not_false_eq_true, Function.update_of_ne]

theorem holdings_eraseTask : holdings kind reaper released η (tasks.erase t) sessions =
    Function.update (holdings kind reaper released η tasks sessions) (.caller t) [] := by
  funext o
  cases o with
  | caller t' =>
    by_cases h : t' = t
    · rw [h, Function.update_self]
      simp only [holdings, lookup_erase, map_none, getD_none]
    · rw [Function.update_of_ne fun heq => h (Owner.caller.inj heq)]
      simp only [holdings, lookup_erase_ne h]
  | session | reaper | hand | released => simp only [holdings, ne_eq, reduceCtorEq, not_false_eq_true, Function.update_of_ne]

theorem holdings_insertSession : holdings kind reaper released η tasks (sessions.insert s state) =
    Function.update (holdings kind reaper released η tasks sessions) (.session s) (kind state.hand) := by
  funext o
  cases o with
  | session s' =>
    by_cases h : s' = s
    · rw [h, Function.update_self]
      simp only [holdings, lookup_insert, map_some, getD_some]
    · rw [Function.update_of_ne fun heq => h (Owner.session.inj heq)]
      simp only [holdings, lookup_insert_ne h]
  | caller | reaper | hand | released => simp only [holdings, ne_eq, reduceCtorEq, not_false_eq_true, Function.update_of_ne]

theorem holdings_eraseSession : holdings kind reaper released η tasks (sessions.erase s) =
    Function.update (holdings kind reaper released η tasks sessions) (.session s) [] := by
  funext o
  cases o with
  | session s' =>
    by_cases h : s' = s
    · rw [h, Function.update_self]
      simp only [holdings, lookup_erase, map_none, getD_none]
    · rw [Function.update_of_ne fun heq => h (Owner.session.inj heq)]
      simp only [holdings, lookup_erase_ne h]
  | caller | reaper | hand | released => simp only [holdings, ne_eq, reduceCtorEq, not_false_eq_true, Function.update_of_ne]

variable (reaper) in
theorem holdings_reaper : holdings kind reaper' released η tasks sessions =
    Function.update (holdings kind reaper released η tasks sessions) .reaper reaper' := by
  funext o
  cases o with
  | reaper => rw [Function.update_self]; rfl
  | caller | session | hand | released => simp only [holdings, ne_eq, reduceCtorEq, not_false_eq_true, Function.update_of_ne]

theorem holdings_hand : holdings kind reaper released θ tasks sessions =
    Function.update (holdings kind reaper released η tasks sessions) .hand (kind θ) := by
  funext o
  cases o with
  | hand => rw [Function.update_self]; rfl
  | caller | session | reaper | released => simp only [holdings, ne_eq, reduceCtorEq, not_false_eq_true, Function.update_of_ne]

theorem holdings_released : holdings kind reaper released' η tasks sessions =
    Function.update (holdings kind reaper released η tasks sessions) .released released' := by
  funext o
  cases o with
  | released => rw [Function.update_self]; rfl
  | caller | session | reaper | hand => simp only [holdings, ne_eq, reduceCtorEq, not_false_eq_true, Function.update_of_ne]

/-! ## Taking and putting down -/

section
variable {n : ℕ} {gone : ℕ → Prop}

theorem holdings_takeTask
    (C : Conserved (holdings kind reaper released η tasks sessions) n gone)
    (hadd : kind (η.add task.hand) = kind η ++ kind task.hand) (ht : tasks.lookup t = some task) :
    Conserved (holdings kind reaper released (η.add task.hand) (tasks.erase t) sessions) n gone := by
  have hheld : holdings kind reaper released η tasks sessions (.caller t) = kind task.hand := by
    simp only [holdings, ht, map_some, getD_some]
  rw [holdings_hand (η := η), holdings_eraseTask, hadd]
  exact C.move nofun (m := kind task.hand) (by rw [hheld]; exact .refl _) (.refl _)

theorem holdings_putTask
    (C : Conserved (holdings kind reaper released (η.add task.hand) tasks sessions) n gone)
    (hadd : kind (η.add task.hand) = kind η ++ kind task.hand) (ht : t ∉ tasks) :
    Conserved (holdings kind reaper released η (tasks.insert t task) sessions) n gone := by
  have hheld : holdings kind reaper released (η.add task.hand) tasks sessions (.caller t) = [] := by
    simp only [holdings, lookup_eq_none.2 ht, map_none, getD_none]
  rw [holdings_insertTask, holdings_hand (η := η.add task.hand)]
  exact C.move nofun (m := kind task.hand) (by rw [← hadd]; exact .refl _) (by rw [hheld]; exact .refl _)

theorem holdings_takeSession
    (C : Conserved (holdings kind reaper released η tasks sessions) n gone)
    (hadd : kind (η.add state.hand) = kind η ++ kind state.hand)
    (hs : sessions.lookup s = some state) :
    Conserved (holdings kind reaper released (η.add state.hand) tasks (sessions.erase s)) n gone := by
  have hheld : holdings kind reaper released η tasks sessions (.session s) = kind state.hand := by
    simp only [holdings, hs, map_some, getD_some]
  rw [holdings_hand (η := η), holdings_eraseSession, hadd]
  exact C.move nofun (m := kind state.hand) (by rw [hheld]; exact .refl _) (.refl _)

theorem holdings_putSession
    (C : Conserved (holdings kind reaper released (η.add state.hand) tasks sessions) n gone)
    (hadd : kind (η.add state.hand) = kind η ++ kind state.hand) (hs : s ∉ sessions) :
    Conserved (holdings kind reaper released η tasks (sessions.insert s state)) n gone := by
  have hheld : holdings kind reaper released (η.add state.hand) tasks sessions (.session s) = [] := by
    simp only [holdings, lookup_eq_none.2 hs, map_none, getD_none]
  rw [holdings_insertSession, holdings_hand (η := η.add state.hand)]
  exact C.move nofun (m := kind state.hand) (by rw [← hadd]; exact .refl _)
    (by rw [hheld]; exact .refl _)

/-- What the hand lets go of comes to the reaper. -/
theorem holdings_handoff (C : Conserved (holdings kind reaper released (η.add m) tasks sessions) n gone)
    (hadd : kind (η.add m) = kind η ++ kind m) (hreaper : reaper'.Perm (reaper ++ kind m)) :
    Conserved (holdings kind reaper' released η tasks sessions) n gone := by
  rw [holdings_reaper reaper, holdings_hand (η := η.add m)]
  exact C.move nofun (m := kind m) (by rw [← hadd]; exact .refl _) hreaper

end

end LuaSkills.ProcessSession
