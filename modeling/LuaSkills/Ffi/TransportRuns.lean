import LuaSkills.Embedded.Identity
import LuaSkills.Ffi.Transport

/-!
# Transport accounting over whole runs

The accounted bytes are those of the published results and of the pending reservations; identities are
issued once; a close reaches every slot that stays registered; a released transport is empty and stays
so.
-/

namespace LuaSkills.Ffi.Transport

open Embedded AList Function List Option Except Nat

variable {config : TransportConfig} {m m' : System} {t : ℕ} {e : Event} {w w' slot : World} {task : Task}
  {remaining : List String} {current : Option (String × ℕ)}

theorem runtimeId_injective : Injective runtimeId := by
  intro i j h
  apply decimal_injective
  unfold runtimeId at h
  simpa only [String.append_right_inj] using h

def Task.isReserved : Task → Bool
  | .reserved _ => true
  | _ => false

/-- What may follow what: identities grow, a result is published once and then freed once, a runtime is
registered once and not after a close returned, and nothing follows the release. -/
def LegalEvent (before : List Event) : Event → Prop
  | .issued n => ∀ k, .issued k ∈ before → k < n
  | .reserved id => .issued id ∈ before ∧ .reserved id ∉ before ∧ .released ∉ before
  | .published id => .reserved id ∈ before ∧ .published id ∉ before ∧ .released ∉ before
  | .freed id => .published id ∈ before ∧ .freed id ∉ before ∧ .released ∉ before
  | .registered id => (∃ n, id = runtimeId n ∧ .issued n ∈ before) ∧ .registered id ∉ before ∧
      .closeReturned ∉ before ∧ .released ∉ before
  | .closeReturned => True
  | .released => .released ∉ before

structure Books (config : TransportConfig) (state : TransportState) (tasks : AssocMap ℕ Task) : Prop where
  bytes : state.bytes =
    state.results.sumBy (fun _ buffer => buffer.len) + state.pending * config.maxResponseBytes
  bytesMax : state.bytes ≤ config.maxResultBytes
  pending : state.pending = tasks.countBy Task.isReserved
  buffersMax : state.results.size + state.pending ≤ config.maxResultBuffers
  runtimesMax : state.runtimes.size ≤ config.maxRuntimes

/-- What the log says about the identities in use. -/
structure Names (nextId : ℕ) (state : TransportState) (tasks : AssocMap ℕ Task) (log : List Event) :
    Prop where
  issued : ∀ n, .issued n ∈ log → n < nextId
  reserved : ∀ t id, tasks.lookup t = some (.reserved id) → .reserved id ∈ log ∧ .published id ∉ log
  reservedOnce : ∀ t t' id, tasks.lookup t = some (.reserved id) →
    tasks.lookup t' = some (.reserved id) → t = t'
  reservedIssued : ∀ id, .reserved id ∈ log → .issued id ∈ log
  published : ∀ id, .published id ∈ log → .reserved id ∈ log
  freed : ∀ id, .freed id ∈ log → .published id ∈ log
  results : ∀ id, id ∈ state.results → .published id ∈ log ∧ .freed id ∉ log
  registering : ∀ t id, tasks.lookup t = some (.registering id) →
    (∃ n, id = runtimeId n ∧ .issued n ∈ log) ∧ .registered id ∉ log
  registeringOnce : ∀ t t' id, tasks.lookup t = some (.registering id) →
    tasks.lookup t' = some (.registering id) → t = t'
  registered : ∀ id, .registered id ∈ log → ∃ n, id = runtimeId n ∧ .issued n ∈ log
  runtimes : ∀ id, id ∈ state.runtimes → .registered id ∈ log

/-- A close under way has asked every registered slot but those it still lists. -/
structure Closes (state : TransportState) (slots : String → World) (tasks : AssocMap ℕ Task)
    (log : List Event) : Prop where
  slotInv : ∀ id, (slots id).Inv
  underWay : ∀ t remaining current, tasks.lookup t = some (.closing remaining current) →
    state.closing ∧ ∀ id ∈ state.runtimes, (slots id).slot.closing ∨ id ∈ remaining
  returned : .closeReturned ∈ log → state.closing ∧ ∀ id ∈ state.runtimes, (slots id).slot.closing
  released : state.released → state.closing ∧ state.pending = 0 ∧ state.results.size = 0 ∧
    state.runtimes.size = 0
  releasedLog : .released ∈ log → state.released

structure Inv (config : TransportConfig) (m : System) : Prop where
  books : Books config m.state m.tasks
  names : Names m.nextId m.state m.tasks m.log
  closes : Closes m.state m.slots m.tasks m.log
  legal : LegalLog LegalEvent m.log

/-! ## Slots only move towards closing -/

theorem slot_closing_of_quiet (I : w.Inv) (h : w.slot.released) : w.slot.closing :=
  (I.released h).2.closing

theorem start_closing (hcall : ∀ w₁, call = .ok w₁ → w.slot.closing → w₁.slot.closing)
    (h : w.start t call = some w') (hclosing : w.slot.closing) : w'.slot.closing := by
  unfold World.start at h
  split at h
  · cases h
  · cases h
    cases hc : call with
    | error e => exact hclosing
    | ok w₁ => exact hcall w₁ hc hclosing

theorem slot_step_closing (h : w.step a = some w') (hclosing : w.slot.closing) : w'.slot.closing := by
  cases a with
  | initializeWith t =>
    refine start_closing (fun w₁ hc _ => ?_) h hclosing
    simp only [World.initializeWith, bind_eq_ok, refuseIf_eq_ok] at hc
    obtain ⟨_, _, _, hopen, _⟩ := hc
    exact (hopen hclosing).elim
  | publishStore t =>
    simp only [World.step] at h
    split at h
    · split at h
      · cases h
      · cases h
        exact hclosing
    · cases h
  | conclude t construction =>
    simp only [World.step] at h
    split at h
    · cases h
      cases construction <;> (unfold World.conclude; dsimp only; split <;> exact hclosing)
    · cases h
  | askConcluded t fault | askClose t fault =>
    simp only [World.step] at h
    split at h
    · cases h
      show (World.askClose ..).slot.closing
      unfold World.askClose
      split
      · exact hclosing
      · split <;> exact hclosing
    · cases h
  | settle t =>
    simp only [World.step] at h
    split at h
    · simp only [World.settle, World.leave, Option.bind_eq_bind, Option.bind_eq_some_iff, Option.pure_def,
        some.injEq] at h
      obtain ⟨_, _, rfl⟩ := h
      exact hclosing
    · cases h
  | acquire t admission =>
    refine start_closing (fun w₁ hc _ => ?_) h hclosing
    simp only [World.acquire, bind_eq_ok] at hc
    obtain ⟨_, _, _, _, _, _, _, _, heq⟩ := hc
    cases heq
    exact hclosing
  | dropLease t | leave t =>
    simp only [World.step] at h
    split at h
    · simp only [World.leave, Option.bind_eq_bind, Option.bind_eq_some_iff, Option.pure_def,
        some.injEq] at h
      obtain ⟨_, _, rfl⟩ := h
      exact hclosing
    · cases h
  | requestClose t =>
    refine start_closing (fun w₁ hc _ => ?_) h hclosing
    simp only [World.requestClose, bind_eq_ok] at hc
    obtain ⟨_, _, hc⟩ := hc
    split at hc <;> (cases hc; rfl)
  | snapshot t =>
    refine start_closing (fun w₁ hc _ => ?_) h hclosing
    simp only [World.snapshot, bind_eq_ok] at hc
    obtain ⟨_, _, hc⟩ := hc
    split at hc <;> (cases hc; exact hclosing)
  | poll t fault =>
    simp only [World.step] at h
    split at h
    · cases h
      rwa [World.Inv.report_slot]
    · cases h
  | release fault =>
    cases h
    rwa [World.Inv.release_closing]
  | drainCore | drainStore =>
    simp only [World.step] at h
    split at h
    · split at h
      · cases h
        exact hclosing
      · cases h
    · cases h

/-- A request to close leaves the slot closing, also when a released slot refuses it. -/
theorem slot_requestClose_closing (I : w.Inv) (h : w.step (.requestClose t) = some w') :
    w'.slot.closing := by
  by_cases hreleased : w.slot.released = true
  · exact slot_step_closing h (slot_closing_of_quiet I hreleased)
  · simp only [World.step, World.start] at h
    split at h
    · cases h
    · have hok : ∃ w₁, w.requestClose t = .ok w₁ ∧ w₁.slot.closing := by
        simp only [World.requestClose, refuseIf_of_not hreleased, ok_bind]
        split
        · exact ⟨_, rfl, rfl⟩
        · exact ⟨_, rfl, rfl⟩
      obtain ⟨w₁, hw₁, hclosing⟩ := hok
      rw [hw₁] at h
      cases h
      exact hclosing

/-! ## Names -/

section
variable {nextId : ℕ} {state state' : TransportState} {tasks tasks' : AssocMap ℕ Task} {log : List Event}

theorem Names.shrink (N : Names nextId state tasks log)
    (hreserved : ∀ t id, tasks'.lookup t = some (.reserved id) → tasks.lookup t = some (.reserved id))
    (hregistering : ∀ t id, tasks'.lookup t = some (.registering id) →
      tasks.lookup t = some (.registering id))
    (hresults : ∀ id, id ∈ state'.results → id ∈ state.results)
    (hruntimes : ∀ id, id ∈ state'.runtimes → id ∈ state.runtimes) :
    Names nextId state' tasks' log := { N with
  reserved t id h := N.reserved t id (hreserved t id h)
  reservedOnce t t' id h h' := N.reservedOnce t t' id (hreserved t id h) (hreserved t' id h')
  results id h := N.results id (hresults id h)
  registering t id h := N.registering t id (hregistering t id h)
  registeringOnce t t' id h h' :=
    N.registeringOnce t t' id (hregistering t id h) (hregistering t' id h')
  runtimes id h := N.runtimes id (hruntimes id h) }

theorem Names.erase (N : Names nextId state tasks log)
    (hresults : ∀ id, id ∈ state'.results → id ∈ state.results)
    (hruntimes : ∀ id, id ∈ state'.runtimes → id ∈ state.runtimes) :
    Names nextId state' (tasks.erase t) log := by
  refine N.shrink (fun t' id h => ?_) (fun t' id h => ?_) hresults hruntimes
  · exact (lookup_of_erase h).2
  · exact (lookup_of_erase h).2

/-- A task is written that has only identities nobody else has. -/
theorem Names.insert (N : Names nextId state tasks log)
    (hreserved : ∀ id, task = .reserved id → (.reserved id ∈ log ∧ .published id ∉ log) ∧
      ∀ t', tasks.lookup t' ≠ some (.reserved id))
    (hregistering : ∀ id, task = .registering id →
      ((∃ n, id = runtimeId n ∧ .issued n ∈ log) ∧ .registered id ∉ log) ∧
        ∀ t', tasks.lookup t' ≠ some (.registering id)) :
    Names nextId state (tasks.insert t task) log := { N with
  reserved t' id h := by
    rcases lookup_of_insert h with ⟨-, h⟩ | ⟨-, h⟩
    · exact (hreserved id h.symm).1
    · exact N.reserved t' id h
  reservedOnce t₁ t₂ id :=
    unique_insert (fun t t' => N.reservedOnce t t' id) (fun h => (hreserved id h).2) t₁ t₂
  registering t' id h := by
    rcases lookup_of_insert h with ⟨-, h⟩ | ⟨-, h⟩
    · exact (hregistering id h.symm).1
    · exact N.registering t' id h
  registeringOnce t₁ t₂ id :=
    unique_insert (fun t t' => N.registeringOnce t t' id) (fun h => (hregistering id h).2) t₁ t₂ }

/-- A task that holds no identity takes the place of any task. -/
theorem Names.setTask (N : Names nextId state tasks log)
    (hreserved : ∀ id, task ≠ .reserved id) (hregistering : ∀ id, task ≠ .registering id) :
    Names nextId state (tasks.insert t task) log :=
  N.insert (fun id h => absurd h (hreserved id)) fun id h => absurd h (hregistering id)

/-- An event that follows on what the log says, about an identity that is no longer in use. -/
theorem Names.append (N : Names nextId state tasks log) (hnext : nextId ≤ nextId')
    (hissued : ∀ n, e = .issued n → n < nextId') (hreserved : ∀ id, e = .reserved id → .issued id ∈ log)
    (hpublished : ∀ id, e = .published id → .reserved id ∈ log ∧
      ∀ t, tasks.lookup t ≠ some (.reserved id))
    (hfreed : ∀ id, e = .freed id → .published id ∈ log ∧ id ∉ state.results)
    (hregistered : ∀ id, e = .registered id → (∃ n, id = runtimeId n ∧ .issued n ∈ log) ∧
      ∀ t, tasks.lookup t ≠ some (.registering id)) : Names nextId' state tasks (log ++ [e]) := by
  have hold : ∀ {e'}, e' ∈ log → e' ∈ log ++ [e] := fun h => mem_append_left _ h
  have hsplit : ∀ {e'}, e' ∈ log ++ [e] → e' ∈ log ∨ e = e' := fun h =>
    (mem_append.1 h).imp_right fun h => (mem_singleton.1 h).symm
  have hname : ∀ {id}, (∃ n, id = runtimeId n ∧ .issued n ∈ log) →
      ∃ n, id = runtimeId n ∧ .issued n ∈ log ++ [e] := fun ⟨n, hn, h⟩ => ⟨n, hn, hold h⟩
  exact { N with
    issued := fun n h => (hsplit h).elim (fun h => (N.issued n h).trans_le hnext) (hissued n)
    reserved := fun t id h => ⟨hold (N.reserved t id h).1, fun hp =>
      (hsplit hp).elim (N.reserved t id h).2 fun hp => (hpublished id hp).2 t h⟩
    reservedIssued := fun id h => hold ((hsplit h).elim (N.reservedIssued id) (hreserved id))
    published := fun id h => hold ((hsplit h).elim (N.published id) fun h => (hpublished id h).1)
    freed := fun id h => hold ((hsplit h).elim (N.freed id) fun h => (hfreed id h).1)
    results := fun id h => ⟨hold (N.results id h).1, fun hp =>
      (hsplit hp).elim (N.results id h).2 fun hp => (hfreed id hp).2 h⟩
    registering := fun t id h => ⟨hname (N.registering t id h).1, fun hp =>
      (hsplit hp).elim (N.registering t id h).2 fun hp => (hregistered id hp).2 t h⟩
    registered := fun id h => hname ((hsplit h).elim (N.registered id) fun h => (hregistered id h).1)
    runtimes := fun id h => hold (N.runtimes id h) }

theorem Names.issue (N : Names nextId state tasks log) :
    Names (nextId + 1) state tasks (log ++ [.issued nextId]) := by
  refine N.append (le_succ _) (fun n h => ?_) nofun nofun nofun nofun
  cases h
  exact lt_succ_self _

/-- The identity just issued is reserved by a new task. -/
theorem Names.reserve {id : ℕ} (N : Names nextId state tasks log) (hissued : .issued id ∈ log)
    (hfresh : .reserved id ∉ log) (hsame : state'.results = state.results)
    (hruntimes : state'.runtimes = state.runtimes) :
    Names nextId state' (tasks.insert t (.reserved id)) (log ++ [.reserved id]) := by
  have N' : Names nextId state' tasks (log ++ [.reserved id]) := by
    refine Names.append (N.shrink (fun _ _ h => h) (fun _ _ h => h) (fun _ h => hsame ▸ h)
      fun _ h => hruntimes ▸ h) le_rfl nofun (fun id' h => ?_) nofun nofun nofun
    cases h
    exact hissued
  refine N'.insert (fun id' h => ?_) nofun
  cases h
  refine ⟨⟨mem_append_right _ (mem_singleton_self _), fun hp => ?_⟩,
    fun t' h => hfresh (N.reserved t' id h).1⟩
  rcases mem_append.1 hp with hp | hp
  · exact hfresh (N.published id hp)
  · cases mem_singleton.1 hp

theorem Names.newSlot (N : Names nextId state tasks log) (hissued : .issued n ∈ log)
    (hfresh : .registered (runtimeId n) ∉ log)
    (hother : ∀ t', tasks.lookup t' ≠ some (.registering (runtimeId n))) :
    Names nextId state (tasks.insert t (.registering (runtimeId n))) log := by
  refine N.insert nofun fun id h => ?_
  cases h
  exact ⟨⟨⟨n, rfl, hissued⟩, hfresh⟩, hother⟩

/-- A reservation becomes a result. -/
theorem Names.publish {id : ℕ} {buffer : Buffer} (N : Names nextId state tasks log)
    (hold : tasks.lookup t = some (.reserved id))
    (hresults : state'.results = state.results.insert id buffer)
    (hruntimes : state'.runtimes = state.runtimes) :
    Names nextId state' (tasks.erase t) (log ++ [.published id]) := by
  have N' : Names nextId state (tasks.erase t) (log ++ [.published id]) := by
    refine Names.append (N.erase (fun _ h => h) fun _ h => h) le_rfl nofun nofun (fun id' h => ?_) nofun nofun
    cases h
    refine ⟨(N.reserved t id hold).1, fun t' h => ?_⟩
    obtain ⟨hne, h⟩ := lookup_of_erase h
    exact hne (N.reservedOnce t' t id h hold)
  refine { N' with results := fun id' h => ?_, runtimes := fun id' h => N'.runtimes id' (hruntimes ▸ h) }
  rw [hresults, mem_insert] at h
  rcases h with rfl | h
  · refine ⟨mem_append_right _ (mem_singleton_self _), fun hp => ?_⟩
    rcases mem_append.1 hp with hp | hp
    · exact (N.reserved t id' hold).2 (N.freed id' hp)
    · cases mem_singleton.1 hp
  · exact N'.results id' h

theorem Names.free {id : ℕ} (N : Names nextId state tasks log) (hid : id ∈ state.results)
    (hresults : state'.results = state.results.erase id) (hruntimes : state'.runtimes = state.runtimes) :
    Names nextId state' tasks (log ++ [.freed id]) := by
  refine Names.append (N.shrink (fun _ _ h => h) (fun _ _ h => h) (fun id' h => ?_)
    fun _ h => hruntimes ▸ h) le_rfl nofun nofun nofun (fun id' h => ?_) nofun
  · rw [hresults] at h
    exact (mem_erase.1 h).2
  · cases h
    rw [hresults]
    exact ⟨(N.results id hid).1, fun h => (mem_erase.1 h).1 rfl⟩

theorem Names.register {id : String} (N : Names nextId state tasks log)
    (hold : tasks.lookup t = some (.registering id))
    (hresults : state'.results = state.results)
    (hruntimes : state'.runtimes = state.runtimes.insert id ()) :
    Names nextId state' (tasks.erase t) (log ++ [.registered id]) := by
  have N' : Names nextId state (tasks.erase t) (log ++ [.registered id]) := by
    refine Names.append (N.erase (fun _ h => h) fun _ h => h) le_rfl nofun nofun nofun nofun fun id' h => ?_
    cases h
    refine ⟨(N.registering t id hold).1, fun t' h => ?_⟩
    obtain ⟨hne, h⟩ := lookup_of_erase h
    exact hne (N.registeringOnce t' t id h hold)
  refine { N' with results := fun id' h => N'.results id' (hresults ▸ h), runtimes := fun id' h => ?_ }
  rw [hruntimes, mem_insert] at h
  rcases h with rfl | h
  · exact mem_append_right _ (mem_singleton_self _)
  · exact N'.runtimes id' h

/-! ## Closing -/

variable {slots slots' : String → World}

/-- Fewer closing tasks and runtimes, and slots that only move towards closing. -/
theorem Closes.shrink (C : Closes state slots tasks log)
    (htasks : ∀ t remaining current, tasks'.lookup t = some (.closing remaining current) →
      ∃ current₀, tasks.lookup t = some (.closing remaining current₀))
    (hslotInv : ∀ id, (slots' id).Inv)
    (hslots : ∀ id ∈ state'.runtimes, (slots id).slot.closing → (slots' id).slot.closing)
    (hclosing : state.closing → state'.closing)
    (hruntimes : ∀ id, id ∈ state'.runtimes → id ∈ state.runtimes)
    (hreleased : state'.released → state'.closing ∧ state'.pending = 0 ∧ state'.results.size = 0 ∧
      state'.runtimes.size = 0)
    (hlog : state.released → state'.released) : Closes state' slots' tasks' log where
  slotInv := hslotInv
  underWay t remaining current h := by
    obtain ⟨current₀, h₀⟩ := htasks t remaining current h
    obtain ⟨hc, hall⟩ := C.underWay t remaining current₀ h₀
    refine ⟨hclosing hc, fun id hid => ?_⟩
    exact (hall id (hruntimes id hid)).imp_left (hslots id hid)
  returned h := by
    obtain ⟨hc, hall⟩ := C.returned h
    exact ⟨hclosing hc, fun id hid => hslots id hid (hall id (hruntimes id hid))⟩
  released := hreleased
  releasedLog h := hlog (C.releasedLog h)

theorem Closes.append (C : Closes state slots tasks log) (hreturned : e ≠ .closeReturned)
    (hreleased : e = .released → state.released) : Closes state slots tasks (log ++ [e]) := { C with
  returned h := by
    rcases mem_append.mp h with h | h
    · exact C.returned h
    · exact (hreturned (mem_singleton.mp h).symm).elim
  releasedLog h := by
    rcases mem_append.mp h with h | h
    · exact C.releasedLog h
    · exact hreleased (mem_singleton.mp h).symm }

/-- A task that closes nothing takes the place of any task. -/
theorem Closes.setTask (C : Closes state slots tasks log)
    (htask : ∀ remaining current, task ≠ .closing remaining current) :
    Closes state slots (tasks.insert t task) log := by
  refine C.shrink (fun t' remaining current h => ?_) C.slotInv (fun _ _ h => h) (fun h => h)
    (fun _ h => h) C.released fun h => h
  rw [lookup_insert_eq] at h
  split at h
  · exact (htask _ _ (some.inj h)).elim
  · exact ⟨current, h⟩

theorem Closes.erase (C : Closes state slots tasks log) : Closes state slots (tasks.erase t) log :=
  C.shrink (fun _ _ current h => ⟨current, (lookup_of_erase h).2⟩) C.slotInv (fun _ _ h => h)
    (fun h => h) (fun _ h => h) C.released fun h => h

/-- The state of an open transport may change its counters and results. -/
theorem Closes.setState (C : Closes state slots tasks log) (hopen : state'.released = false)
    (hclosing : state'.closing = state.closing) (hreleased : state'.released = state.released)
    (hruntimes : ∀ id, id ∈ state'.runtimes → id ∈ state.runtimes) : Closes state' slots tasks log :=
  C.shrink (fun _ _ current h => ⟨current, h⟩) C.slotInv (fun _ _ h => h) (fun h => hclosing.trans h)
    hruntimes (fun h => nomatch hopen.symm.trans h) fun h => hreleased.trans h

theorem Closes.setSlot {id : String} (C : Closes state slots tasks log) (hslot : slot.Inv)
    (hclosing : id ∈ state.runtimes → (slots id).slot.closing → slot.slot.closing) :
    Closes state (update slots id slot) tasks log := by
  refine C.shrink (fun _ _ current h => ⟨current, h⟩) (fun id' => ?_) (fun id' hid' h => ?_) (fun h => h)
    (fun _ h => h) C.released fun h => h
  · rcases eq_or_ne id' id with rfl | hne
    · simpa using hslot
    · simpa [hne] using C.slotInv id'
  · rcases eq_or_ne id' id with rfl | hne
    · simpa using hclosing hid' h
    · simpa [hne] using h

end

/-! ## Sections -/

namespace Inv

theorem new : Inv config (System.new nextId) where
  books := ⟨by simp [System.new, sumBy], zero_le _, rfl, zero_le _, zero_le _⟩
  names := by constructor <;> simp [System.new]
  closes := by
    refine ⟨fun _ => World.Inv.new, ?_, ?_, ?_, ?_⟩ <;> simp [System.new]
  legal := .nil

theorem identity {id : ℕ} (I : Inv config m) (h : m.identity = some (id, m')) :
    Inv config m' ∧ m'.state = m.state ∧ m'.slots = m.slots ∧ m'.tasks = m.tasks ∧
      .issued id ∈ m'.log ∧ .reserved id ∉ m'.log ∧ .registered (runtimeId id) ∉ m'.log ∧
      ∀ t, m'.tasks.lookup t ≠ some (.registering (runtimeId id)) := by
  simp only [System.identity, bind_eq_bind, bind_eq_some_iff, checkedAdd_eq_some,
    Option.pure_def, Option.some.injEq, Prod.mk.injEq] at h
  obtain ⟨next, ⟨_, rfl⟩, rfl, rfl⟩ := h
  have hfresh : .issued m.nextId ∉ m.log := fun h => lt_irrefl _ (I.names.issued _ h)
  -- Whatever carries this number was issued before it.
  have hname : ∀ n, runtimeId m.nextId = runtimeId n → .issued n ∉ m.log := by
    rintro n hn hissued
    cases runtimeId_injective hn
    exact hfresh hissued
  refine ⟨⟨I.books, I.names.issue, I.closes.append (by rintro ⟨⟩) (by rintro ⟨⟩),
    I.legal.append fun k hk => I.names.issued k hk⟩, rfl, rfl, rfl,
    mem_append_right _ (mem_singleton_self _), fun h => ?_, fun h => ?_, fun t h => ?_⟩
  · rcases mem_append.mp h with h | h
    · exact hfresh (I.names.reservedIssued _ h)
    · simp at h
  · rcases mem_append.mp h with h | h
    · obtain ⟨n, hn, hissued⟩ := I.names.registered _ h
      exact hname n hn hissued
    · simp at h
  · obtain ⟨⟨n, hn, hissued⟩, _⟩ := I.names.registering t _ h
    exact hname n hn hissued

theorem not_releasedLog (I : Inv config m) (h : m.state.released = false) : .released ∉ m.log :=
  fun hlog => nomatch h.symm.trans (I.closes.releasedLog hlog)

theorem reserve (I : Inv config m) (ht : t ∉ m.tasks) (h : m.reserve config t = .ok m') :
    Inv config m' := by
  simp only [System.reserve, bind_eq_ok, refuseIf_eq_ok, okOr_eq_ok, not_or] at h
  obtain ⟨_, hopen, _, ⟨hbuffers, hbytes⟩, ⟨id, m₁⟩, hidentity, heq⟩ := h
  cases heq
  rw [Bool.not_eq_true] at hopen
  obtain ⟨I₁, hstate, hslots, htasks, hissued, hfresh, -, -⟩ := I.identity hidentity
  rw [← hstate] at hopen hbuffers hbytes
  rw [← htasks] at ht
  refine ⟨⟨?_, ?_, ?_, ?_, I₁.books.runtimesMax⟩, I₁.names.reserve hissued hfresh rfl rfl, ?_,
    I₁.legal.append ⟨hissued, hfresh, I₁.not_releasedLog hopen⟩⟩
  · show m₁.state.bytes + config.maxResponseBytes = _ + (m₁.state.pending + 1) * config.maxResponseBytes
    rw [I₁.books.bytes, succ_mul, add_assoc]
    rfl
  · show m₁.state.bytes + config.maxResponseBytes ≤ _
    have := I₁.books.bytesMax
    omega
  · show m₁.state.pending + 1 = (m₁.tasks.insert t (.reserved id)).countBy Task.isReserved
    rw [countBy_insert_of_notMem ht, I₁.books.pending]
    rfl
  · show m₁.state.results.size + (m₁.state.pending + 1) ≤ _
    omega
  · refine Closes.append (Closes.setTask (Closes.setState I₁.closes hopen ?_ ?_ ?_) ?_) ?_ ?_
    · rfl
    · rfl
    · exact fun _ h => h
    · rintro _ _ ⟨⟩
    · rintro ⟨⟩
    · rintro ⟨⟩

theorem open_of_reserved (I : Inv config m) {id : ℕ} (hold : m.tasks.lookup t = some (.reserved id)) :
    m.state.released = false ∧ 0 < m.state.pending := by
  have hpos : 0 < m.state.pending := by
    rw [I.books.pending]
    exact countBy_pos_of_lookup hold rfl
  refine ⟨?_, hpos⟩
  rw [← Bool.not_eq_true]
  intro hreleased
  have := (I.closes.released hreleased).2.1
  omega

theorem countBy_erase_reserved (I : Inv config m) {id : ℕ}
    (hold : m.tasks.lookup t = some (.reserved id)) :
    m.state.pending = (m.tasks.erase t).countBy Task.isReserved + 1 := by
  rw [I.books.pending, countBy_of_lookup hold]
  rfl

/-- A pending reservation is charged in full. -/
theorem response_le_bytes (I : Inv config m) {id : ℕ} (hold : m.tasks.lookup t = some (.reserved id)) :
    config.maxResponseBytes ≤ m.state.bytes := by
  have hpos := (I.open_of_reserved hold).2
  rw [I.books.bytes]
  exact le_trans (Nat.le_mul_of_pos_left _ hpos) (Nat.le_add_left _ _)

theorem publish (I : Inv config m) {id ptr len : ℕ} (hold : m.tasks.lookup t = some (.reserved id))
    (hlen : len ≤ config.maxResponseBytes) (h : m.publish config t id ptr len = some m') :
    Inv config m' := by
  simp only [System.publish, bind_eq_bind, bind_eq_some_iff, checkedSub_eq_some,
    Option.pure_def, Option.some.injEq] at h
  obtain ⟨unused, ⟨_, rfl⟩, bytes, ⟨_, rfl⟩, pending, ⟨_, rfl⟩, rfl⟩ := h
  obtain ⟨hopen, hpos⟩ := I.open_of_reserved hold
  have hcount := I.countBy_erase_reserved hold
  have hbytes := I.books.bytes
  have hfull := I.response_le_bytes hold
  have hfresh : id ∉ m.state.results := fun hid => (I.names.reserved t id hold).2 (I.names.results id hid).1
  refine ⟨⟨?_, ?_, ?_, ?_, I.books.runtimesMax⟩, I.names.publish hold rfl rfl, ?_,
    I.legal.append ⟨(I.names.reserved t id hold).1, (I.names.reserved t id hold).2, I.not_releasedLog hopen⟩⟩
  · show m.state.bytes - (config.maxResponseBytes - len) =
      (m.state.results.insert id ⟨ptr, len⟩).sumBy (fun _ buffer => buffer.len) +
        (m.state.pending - 1) * config.maxResponseBytes
    obtain ⟨k, hk⟩ : ∃ k, m.state.pending = k + 1 := ⟨m.state.pending - 1, by omega⟩
    rw [sumBy_insert, erase_of_notMem hfresh, hk, Nat.add_sub_cancel]
    rw [hk, succ_mul] at hbytes
    show _ = len + _ + _
    omega
  · show m.state.bytes - (config.maxResponseBytes - len) ≤ _
    have := I.books.bytesMax
    omega
  · show m.state.pending - 1 = (m.tasks.erase t).countBy Task.isReserved
    omega
  · show (m.state.results.insert id ⟨ptr, len⟩).size + (m.state.pending - 1) ≤ _
    rw [size_insert_of_notMem hfresh]
    have := I.books.buffersMax
    omega
  · refine Closes.append (Closes.erase (Closes.setState I.closes hopen ?_ ?_ ?_)) ?_ ?_
    · rfl
    · rfl
    · exact fun _ h => h
    all_goals rintro ⟨⟩

theorem dropReservation (I : Inv config m) {id : ℕ} (hold : m.tasks.lookup t = some (.reserved id))
    (h : m.dropReservation config t = some m') : Inv config m' := by
  simp only [System.dropReservation, bind_eq_bind, bind_eq_some_iff, checkedSub_eq_some,
    Option.pure_def, Option.some.injEq] at h
  obtain ⟨pending, ⟨_, rfl⟩, bytes, ⟨_, rfl⟩, rfl⟩ := h
  obtain ⟨hopen, hpos⟩ := I.open_of_reserved hold
  have hcount := I.countBy_erase_reserved hold
  have hbytes := I.books.bytes
  refine ⟨⟨?_, ?_, ?_, ?_, I.books.runtimesMax⟩, I.names.erase (fun _ h => h) fun _ h => h, ?_, I.legal⟩
  · show m.state.bytes - config.maxResponseBytes = _ + (m.state.pending - 1) * config.maxResponseBytes
    obtain ⟨k, hk⟩ : ∃ k, m.state.pending = k + 1 := ⟨m.state.pending - 1, by omega⟩
    rw [hk, Nat.add_sub_cancel]
    rw [hk, succ_mul] at hbytes
    show _ = m.state.results.sumBy _ + _
    omega
  · show m.state.bytes - config.maxResponseBytes ≤ _
    have := I.books.bytesMax
    omega
  · show m.state.pending - 1 = (m.tasks.erase t).countBy Task.isReserved
    omega
  · show m.state.results.size + (m.state.pending - 1) ≤ _
    have := I.books.buffersMax
    omega
  · exact Closes.erase (Closes.setState I.closes hopen rfl rfl fun _ h => h)

theorem freeResult (I : Inv config m) {result : FfiEmbeddedResultV1}
    (h : m.freeResult result = some (.ok m')) : Inv config m' := by
  unfold System.freeResult at h
  split at h
  · cases h
  next hopen =>
    rw [Bool.not_eq_true] at hopen
    split at h
    · cases h
    next owned hlookup =>
      split at h
      · cases h
      · simp only [Option.bind_eq_bind, Option.bind_eq_some_iff, checkedSub_eq_some, Option.pure_def,
          some.injEq, ok.injEq] at h
        obtain ⟨bytes, ⟨hle, rfl⟩, rfl⟩ := h
        have hbytes := I.books.bytes
        have hmem := mem_of_lookup hlookup
        have hsum := sumBy_of_lookup (f := fun _ buffer => buffer.len) hlookup
        have hsize := size_of_lookup hlookup
        refine ⟨⟨?_, ?_, I.books.pending, ?_, I.books.runtimesMax⟩, I.names.free hmem rfl rfl, ?_,
          I.legal.append ⟨(I.names.results _ hmem).1, (I.names.results _ hmem).2, I.not_releasedLog hopen⟩⟩
        · show m.state.bytes - owned.len = (m.state.results.erase result.allocationId).sumBy _ +
            m.state.pending * config.maxResponseBytes
          omega
        · show m.state.bytes - owned.len ≤ _
          have := I.books.bytesMax
          omega
        · show (m.state.results.erase result.allocationId).size + m.state.pending ≤ _
          have := I.books.buffersMax
          omega
        · refine Closes.append (Closes.setState I.closes hopen ?_ ?_ ?_) ?_ ?_
          · rfl
          · rfl
          · exact fun _ h => h
          all_goals rintro ⟨⟩

theorem countBy_erase (I : Inv config m) (hold : m.tasks.lookup t = some task)
    (hreserved : task.isReserved = false) :
    m.state.pending = (m.tasks.erase t).countBy Task.isReserved := by
  rw [I.books.pending, countBy_of_lookup hold, hreserved]
  rfl

/-- A name is free for a task that holds no reservation. -/
def Vacant (tasks : AssocMap ℕ Task) (t : ℕ) : Prop :=
  t ∉ tasks ∨ ∃ old, tasks.lookup t = some old ∧ old.isReserved = false

theorem pending_insert (I : Inv config m) (ht : Vacant m.tasks t)
    (htask : task.isReserved = false) :
    m.state.pending = (m.tasks.insert t task).countBy Task.isReserved := by
  rcases ht with ht | ⟨old, hold, hreserved⟩
  · rw [countBy_insert_of_notMem ht, I.books.pending, htask]
    rfl
  · rw [countBy_insert, I.countBy_erase hold hreserved, htask]
    rfl

theorem setTask (I : Inv config m) (ht : Vacant m.tasks t) (htask : task.isReserved = false)
    (hnames : Names m.nextId m.state (m.tasks.insert t task) m.log)
    (hclosing : ∀ remaining current, task ≠ .closing remaining current) : Inv config (m.setTask t task) :=
  ⟨⟨I.books.bytes, I.books.bytesMax, I.pending_insert ht htask, I.books.buffersMax, I.books.runtimesMax⟩,
    hnames, I.closes.setTask hclosing, I.legal⟩

theorem endTask (I : Inv config m) (hold : m.tasks.lookup t = some task)
    (hreserved : task.isReserved = false) : Inv config (m.endTask t) :=
  ⟨⟨I.books.bytes, I.books.bytesMax, I.countBy_erase hold hreserved, I.books.buffersMax,
    I.books.runtimesMax⟩, I.names.erase (fun _ h => h) fun _ h => h, I.closes.erase, I.legal⟩

theorem setSlot {id : String} (I : Inv config m) (hslot : slot.Inv)
    (hclosing : id ∈ m.state.runtimes → (m.slots id).slot.closing → slot.slot.closing) :
    Inv config (m.setSlot id slot) :=
  ⟨I.books, I.names, I.closes.setSlot hslot hclosing, I.legal⟩

theorem newSlot (I : Inv config m) (ht : t ∉ m.tasks) (h : m.newSlot t = .ok m') : Inv config m' := by
  simp only [System.newSlot, bind_eq_ok, okOr_eq_ok] at h
  obtain ⟨⟨n, m₁⟩, hidentity, heq⟩ := h
  cases heq
  obtain ⟨I₁, hstate, hslots, htasks, hissued, -, hfresh, hother⟩ := I.identity hidentity
  rw [← htasks] at ht
  refine (I₁.setSlot World.Inv.new fun hid => (hfresh (I₁.names.runtimes _ hid)).elim).setTask (.inl ht) rfl
    (I₁.names.newSlot hissued hfresh hother) (by rintro _ _ ⟨⟩)

theorem registerRuntime (I : Inv config m) {id : String} (hold : m.tasks.lookup t = some (.registering id)) :
    Inv config (m.registerRuntime config t id) := by
  unfold System.registerRuntime
  split
  · exact I.endTask hold rfl
  next hopen =>
    simp only [Bool.or_eq_true, not_or, Bool.not_eq_true] at hopen
    split
    · exact I.endTask hold rfl
    next hroom =>
      have hfresh : id ∉ m.state.runtimes := fun hid =>
        (I.names.registering t id hold).2 (I.names.runtimes id hid)
      refine ⟨⟨I.books.bytes, I.books.bytesMax, I.countBy_erase hold rfl, I.books.buffersMax, ?_⟩,
        I.names.register hold rfl rfl, ?_, I.legal.append ⟨(I.names.registering t id hold).1,
          (I.names.registering t id hold).2, fun hreturned => ?_, I.not_releasedLog hopen.2⟩⟩
      · show (m.state.runtimes.insert id ()).size ≤ _
        rw [size_insert_of_notMem hfresh]
        omega
      · -- An open transport has neither a close under way nor one that returned.
        have hnone : ∀ t' remaining current,
            m.tasks.lookup t' ≠ some (.closing remaining current) := fun t' _ _ h =>
          nomatch hopen.1.symm.trans (I.closes.underWay t' _ _ h).1
        refine Closes.append ⟨I.closes.slotInv, ?_, ?_, ?_, I.closes.releasedLog⟩ ?_ ?_
        · exact fun t' remaining current h => (hnone t' _ _ (lookup_of_erase h).2).elim
        · exact fun h => nomatch hopen.1.symm.trans (I.closes.returned h).1
        · exact fun h => nomatch hopen.2.symm.trans h
        all_goals nofun
      · exact nomatch hopen.1.symm.trans (I.closes.returned hreturned).1

/-- Removing a runtime only shortens what a close has to reach. -/
theorem removeRuntime (I : Inv config m) {id : String} (hold : m.tasks.lookup t = some (.removing id)) :
    Inv config ({ m with state := { m.state with runtimes := m.state.runtimes.erase id } }.endTask t) := by
  have hsub : ∀ id', id' ∈ m.state.runtimes.erase id → id' ∈ m.state.runtimes := fun _ h =>
    (mem_erase.mp h).2
  have hsize : (m.state.runtimes.erase id).size ≤ m.state.runtimes.size := size_erase_le
  refine ⟨⟨I.books.bytes, I.books.bytesMax, I.countBy_erase hold rfl, I.books.buffersMax,
    le_trans hsize I.books.runtimesMax⟩, I.names.erase (fun _ h => h) hsub, ?_, I.legal⟩
  refine Closes.erase (I.closes.shrink (fun _ _ current h => ⟨current, h⟩) I.closes.slotInv
    (fun _ _ h => h) (fun h => h) hsub (fun h => ?_) fun h => h)
  obtain ⟨hclosing, hpending, hresults, hruntimes⟩ := I.closes.released h
  exact ⟨hclosing, hpending, hresults, le_zero.mp (hruntimes ▸ hsize)⟩

/-! ### Closing -/

/-- The task of a close may be replaced when what it leaves out is closing already. -/
theorem setClosing (I : Inv config m)
    (ht : Vacant m.tasks t)
    (hreached : m.state.closing ∧
      ∀ id ∈ m.state.runtimes, (m.slots id).slot.closing ∨ id ∈ remaining) :
    Inv config (m.setTask t (.closing remaining current)) := by
  refine ⟨⟨I.books.bytes, I.books.bytesMax, I.pending_insert ht rfl, I.books.buffersMax,
    I.books.runtimesMax⟩, I.names.setTask nofun nofun, ⟨I.closes.slotInv, ?_, I.closes.returned,
      I.closes.released, I.closes.releasedLog⟩, I.legal⟩
  intro t' remaining' current' h
  rw [show (m.setTask t (.closing remaining current)).tasks = m.tasks.insert t _ from rfl,
    lookup_insert_eq] at h
  split at h
  · cases h
    exact hreached
  · exact I.closes.underWay t' _ _ h

theorem requestClose (I : Inv config m) (ht : t ∉ m.tasks) (h : m.requestClose t = .ok m') :
    Inv config m' := by
  simp only [System.requestClose, bind_eq_ok, refuseIf_eq_ok, Bool.not_eq_true] at h
  obtain ⟨_, hopen, heq⟩ := h
  cases heq
  have I₁ : Inv config { m with state := { m.state with closing := true } } := by
    refine ⟨⟨I.books.bytes, I.books.bytesMax, I.books.pending, I.books.buffersMax, I.books.runtimesMax⟩,
      I.names.shrink (fun _ _ h => h) (fun _ _ h => h) (fun _ h => h) fun _ h => h, ?_, I.legal⟩
    exact I.closes.shrink (fun _ _ current h => ⟨current, h⟩) I.closes.slotInv (fun _ _ h => h)
      (fun _ => rfl) (fun _ h => h) (fun h => by cases hopen.symm.trans h) fun h => h
  exact I₁.setClosing (.inl ht) ⟨rfl, fun id hid => .inr (mem_keys.mpr hid)⟩

theorem closeNext (I : Inv config m) {id : String}
    (hold : m.tasks.lookup t = some (.closing (id :: remaining) none))
    (h : (m.slots id).step (.requestClose call) = some slot) :
    Inv config ((m.setSlot id slot).setTask t (.closing remaining (some (id, call)))) := by
  have hclosing : slot.slot.closing := slot_requestClose_closing (I.closes.slotInv id) h
  have I₁ : Inv config (m.setSlot id slot) :=
    I.setSlot (World.Inv.step (I.closes.slotInv id) h) fun _ _ => hclosing
  refine I₁.setClosing (.inr ⟨_, hold, rfl⟩) ⟨(I.closes.underWay t _ _ hold).1, fun id' hid' => ?_⟩
  rcases eq_or_ne id' id with rfl | hne
  · refine .inl ?_
    show (update m.slots id' slot id').slot.closing
    rwa [update_self]
  · show (update m.slots id slot id').slot.closing ∨ _
    rw [update_of_ne hne]
    rcases (I.closes.underWay t _ _ hold).2 id' hid' with h | h
    · exact .inl h
    · exact .inr ((mem_cons.mp h).resolve_left hne)

theorem closeWaited (I : Inv config m)
    (hold : m.tasks.lookup t = some (.closing remaining current)) :
    Inv config (m.setTask t (.closing remaining none)) :=
  I.setClosing (.inr ⟨_, hold, rfl⟩) (I.closes.underWay t _ _ hold)

theorem closeReturn (I : Inv config m)
    (hold : m.tasks.lookup t = some (.closing [] current)) :
    Inv config ((m.endTask t).record .closeReturned) := by
  have I₁ := I.endTask hold rfl
  obtain ⟨hclosing, hall⟩ := I.closes.underWay t _ _ hold
  refine ⟨I₁.books, I₁.names.append le_rfl nofun nofun nofun nofun nofun,
    ⟨I₁.closes.slotInv, I₁.closes.underWay, fun _ => ⟨hclosing, fun id hid => ?_⟩, I₁.closes.released,
      fun h => ?_⟩, I₁.legal.append trivial⟩
  · exact (hall id hid).resolve_right (not_mem_nil)
  · rcases mem_append.mp h with h | h
    · exact I.closes.releasedLog h
    · cases mem_singleton.mp h

theorem release (I : Inv config m) (h : m.release = .ok m') : Inv config m' := by
  simp only [System.release, bind_eq_ok, refuseIf_eq_ok, not_or, not_not, Bool.not_eq_false,
    Bool.not_eq_true] at h
  obtain ⟨_, hopen, _, ⟨hclosing, hpending, hresults, hruntimes⟩, heq⟩ := h
  cases heq
  have hnames : Names m.nextId { m.state with released := true } m.tasks m.log :=
    I.names.shrink (fun _ _ h => h) (fun _ _ h => h) (fun _ h => h) fun _ h => h
  have hcloses : Closes { m.state with released := true } m.slots m.tasks m.log :=
    I.closes.shrink (fun _ _ current h => ⟨current, h⟩) I.closes.slotInv (fun _ _ h => h) (fun h => h)
      (fun _ h => h) (fun _ => ⟨hclosing, hpending, hresults, hruntimes⟩) fun _ => rfl
  refine ⟨⟨I.books.bytes, I.books.bytesMax, I.books.pending, I.books.buffersMax, I.books.runtimesMax⟩,
    hnames.append le_rfl (by rintro _ ⟨⟩) (by rintro _ ⟨⟩) (by rintro _ ⟨⟩) (by rintro _ ⟨⟩)
      (by rintro _ ⟨⟩), hcloses.append (by rintro ⟨⟩) fun _ => rfl,
    I.legal.append (I.not_releasedLog hopen)⟩

/-! ### Whole runs -/

theorem start (I : Inv config m) (hcall : t ∉ m.tasks → ∀ m₁, call = .ok m₁ → Inv config m₁)
    (h : m.start t call = some m') : Inv config m' := by
  unfold System.start at h
  split at h
  · cases h
  next ht =>
    cases h
    cases hc : call with
    | error e => exact I
    | ok m₁ => exact hcall ht m₁ hc

theorem step {a : System.Action} (I : Inv config m) (h : m.step config a = some m') : Inv config m' := by
  cases a with
  | foreignIdentity =>
    obtain ⟨⟨id, m₁⟩, hidentity, rfl⟩ := map_eq_some_iff.mp h
    exact (I.identity hidentity).1
  | reserve t => exact I.start (fun ht _ hc => I.reserve ht hc) h
  | publish t ptr len =>
    simp only [System.step] at h
    split at h
    next id hold =>
      split at h
      · cases h
        exact I
      next hlen =>
        rw [not_or, not_lt] at hlen
        exact I.publish hold hlen.2 h
    · cases h
  | dropReservation t =>
    simp only [System.step] at h
    split at h
    next id hold => exact I.dropReservation hold h
    · cases h
  | freeResult result =>
    obtain ⟨r, hr, rfl⟩ := map_eq_some_iff.mp h
    cases r with
    | error e => exact I
    | ok m₁ => exact I.freeResult hr
  | newSlot t => exact I.start (fun ht _ hc => I.newSlot ht hc) h
  | register t =>
    simp only [System.step] at h
    split at h
    next id hold =>
      cases h
      exact I.registerRuntime hold
    · cases h
  | abandon t =>
    simp only [System.step] at h
    split at h
    next id hold =>
      cases h
      exact I.endTask hold rfl
    · cases h
  | slot id a =>
    obtain ⟨slot, hslot, rfl⟩ := map_eq_some_iff.mp h
    exact I.setSlot (World.Inv.step (I.closes.slotInv id) hslot) fun _ => slot_step_closing hslot
  | requestClose t => exact I.start (fun ht _ hc => I.requestClose ht hc) h
  | closeNext t call =>
    simp only [System.step] at h
    split at h
    next id remaining hold =>
      obtain ⟨slot, hslot, rfl⟩ := map_eq_some_iff.mp h
      exact I.closeNext hold hslot
    · cases h
  | closeWaited t =>
    simp only [System.step] at h
    split at h
    next remaining id call hold =>
      split at h
      · cases h
      · cases h
        exact I.closeWaited hold
    · cases h
  | closeReturn t =>
    simp only [System.step] at h
    split at h
    next hold =>
      cases h
      exact I.closeReturn hold
    · cases h
  | releaseRuntime t id =>
    simp only [System.step] at h
    split at h
    · cases h
    next ht =>
      split at h
      · cases h
        exact I.setTask (.inl ht) rfl (I.names.setTask (by rintro _ ⟨⟩) (by rintro _ ⟨⟩)) (by rintro _ _ ⟨⟩)
      · cases h
        exact I
  | releaseSlot t fault =>
    simp only [System.step] at h
    split at h
    next id hold =>
      have hreleased : Inv config (m.setSlot id ((m.slots id).release fault).1) :=
        I.setSlot ((I.closes.slotInv id).release fault) fun _ hclosing => by
          rwa [World.Inv.release_closing]
      split at h
      next slot _ hslot =>
        cases h
        rw [hslot] at hreleased
        exact hreleased.setTask (.inr ⟨_, hold, rfl⟩) rfl
          (hreleased.names.setTask (by rintro _ ⟨⟩) (by rintro _ ⟨⟩)) (by rintro _ _ ⟨⟩)
      next slot _ hslot =>
        cases h
        rw [hslot] at hreleased
        exact hreleased.endTask hold rfl
    · cases h
  | removeRuntime t =>
    simp only [System.step] at h
    split at h
    next id hold =>
      cases h
      exact I.removeRuntime hold
    · cases h
  | release =>
    cases h
    cases hc : m.release with
    | error e => exact I
    | ok m₁ => exact I.release hc

theorem run (I : Inv config m) (h : m.run config as = some m') : Inv config m' := by
  induction as generalizing m with
  | nil =>
    cases h
    exact I
  | cons a as ih =>
    obtain ⟨m₁, hstep, hrest⟩ := bind_eq_some_iff.mp h
    exact ih (I.step hstep) hrest

/-- The subtractions of a publication, of a drop and of a free stay above zero. -/
theorem publish_isSome (I : Inv config m) {id ptr len : ℕ} (hold : m.tasks.lookup t = some (.reserved id))
    (hlen : len ≤ config.maxResponseBytes) : (m.publish config t id ptr len).isSome := by
  have hfull := I.response_le_bytes hold
  have hpos : 1 ≤ m.state.pending := (I.open_of_reserved hold).2
  simp only [System.publish, checkedSub, Option.bind_eq_bind, Option.pure_def]
  rw [if_pos hlen, bind_some, if_pos (le_trans (sub_le _ _) hfull), bind_some,
    if_pos hpos, bind_some]
  rfl

theorem dropReservation_isSome (I : Inv config m) {id : ℕ}
    (hold : m.tasks.lookup t = some (.reserved id)) : (m.dropReservation config t).isSome := by
  have hfull := I.response_le_bytes hold
  have hpos : 1 ≤ m.state.pending := (I.open_of_reserved hold).2
  simp only [System.dropReservation, checkedSub, Option.bind_eq_bind, Option.pure_def]
  rw [if_pos hpos, bind_some, if_pos hfull, bind_some]
  rfl

theorem freeResult_isSome (I : Inv config m) : (m.freeResult result).isSome := by
  unfold System.freeResult
  split
  · rfl
  · split
    · rfl
    next owned hlookup =>
      split
      · rfl
      · have hsum := sumBy_of_lookup (f := fun _ buffer => buffer.len) hlookup
        have hle : owned.len ≤ m.state.bytes := by
          rw [I.books.bytes, hsum]
          omega
        simp only [checkedSub, Option.bind_eq_bind, Option.pure_def]
        rw [if_pos hle, bind_some]
        rfl

end Inv

/-! ## The transport as its host sees it -/

/-- What holds between any two sections. -/
structure Accounted (config : TransportConfig) (m : System) : Prop where
  bytes : m.state.bytes =
    m.state.results.sumBy (fun _ buffer => buffer.len) + m.state.pending * config.maxResponseBytes
  bytesMax : m.state.bytes ≤ config.maxResultBytes
  pending : m.state.pending = m.tasks.countBy Task.isReserved
  buffersMax : m.state.results.size + m.state.pending ≤ config.maxResultBuffers
  runtimesMax : m.state.runtimes.size ≤ config.maxRuntimes
  publishes : ∀ t id ptr len, m.tasks.lookup t = some (.reserved id) → len ≤ config.maxResponseBytes →
    (m.publish config t id ptr len).isSome
  drops : ∀ t id, m.tasks.lookup t = some (.reserved id) → (m.dropReservation config t).isSome
  frees : ∀ result, (m.freeResult result).isSome
  -- Identities are issued once, and each is reserved, published, freed and registered at most once.
  legal : LegalLog LegalEvent m.log
  held : ∀ id, id ∈ m.state.results → .published id ∈ m.log ∧ .freed id ∉ m.log
  refused : ∀ result, result.allocationId ∉ m.state.results → m.state.released = false →
    m.freeResult result = some (.error .notFound)
  closeReached : .closeReturned ∈ m.log → ∀ id ∈ m.state.runtimes, (m.slots id).slot.closing
  empty : m.state.released → m.state.pending = 0 ∧ m.state.results.size = 0 ∧ m.state.runtimes.size = 0
  final : m.state.released → (∀ t, m.reserve config t = .error .closed) ∧
    (∀ result, m.freeResult result = some (.error .closed)) ∧
    (∀ t id, m.registerRuntime config t id = m.endTask t) ∧
    (∀ id, m.runtime id = .error ⟨.closed, "FFI transport admission is closed"⟩) ∧
    (∀ t, m.requestClose t = .error .closed) ∧ m.release = .error .notFound

/-- Every interleaving of the calls of a transport's hosts keeps its books. -/
theorem System.accounted {nextId : ℕ} {as : List System.Action}
    (h : (System.new nextId).run config as = some m) : Accounted config m := by
  have I : Inv config m := Inv.new.run h
  refine ⟨I.books.bytes, I.books.bytesMax, I.books.pending, I.books.buffersMax, I.books.runtimesMax,
    fun _ _ _ _ hold hlen => I.publish_isSome hold hlen, fun _ _ hold => I.dropReservation_isSome hold,
    fun _ => I.freeResult_isSome, I.legal, I.names.results, fun result hfree hopen => ?_,
    fun hreturned => (I.closes.returned hreturned).2, fun hreleased => (I.closes.released hreleased).2,
    fun hreleased => ⟨fun t => ?_, fun result => ?_, fun t id => ?_, fun id => ?_, fun t => ?_, ?_⟩⟩
  · have hnone : m.state.results.lookup result.allocationId = none := lookup_eq_none.mpr hfree
    simp only [System.freeResult, hopen, hnone]
    rfl
  · rw [System.reserve, refuseIf, if_pos hreleased]
    rfl
  · rw [System.freeResult, if_pos hreleased]
  · rw [System.registerRuntime, hreleased, Bool.or_true]
    rfl
  · rw [System.runtime, refuseIf, if_pos hreleased]
    rfl
  · rw [System.requestClose, refuseIf, if_pos hreleased]
    rfl
  · rw [System.release, refuseIf, if_pos hreleased]
    rfl

namespace Example

def limits : TransportConfig := ⟨1, 2, 64, 16⟩

/-- One runtime and one response; the close overtakes a second registration. -/
def calls : List System.Action :=
  [.newSlot 0, .register 0, .reserve 1, .publish 1 4096 10, .newSlot 2, .requestClose 3, .register 2,
    .closeNext 3 0, .closeWaited 3, .closeReturn 3, .freeResult ⟨4096, 10, 8⟩, .freeResult ⟨4096, 10, 8⟩,
    .releaseRuntime 4 (runtimeId 7), .releaseSlot 4 none, .removeRuntime 4, .release, .reserve 5]

theorem retired_transport : ∃ m, (System.new 7).run limits calls = some m ∧ m.state.released = true ∧
    m.log.length = 9 ∧ Accounted limits m := by
  obtain ⟨m, hrun, hm⟩ := map_eq_some_iff.mp
    (show ((System.new 7).run limits calls).map (fun m => (m.state.released, m.log.length)) =
      some (true, 9) by decide +kernel)
  obtain ⟨hreleased, hlength⟩ := Prod.mk.inj hm
  exact ⟨m, hrun, hreleased, hlength, System.accounted hrun⟩

end Example

end LuaSkills.Ffi.Transport
