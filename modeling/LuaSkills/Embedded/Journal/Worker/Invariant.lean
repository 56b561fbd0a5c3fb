import LuaSkills.Data.SharedOwners
import LuaSkills.Embedded.Journal.Runs
import LuaSkills.Embedded.Journal.Worker.State

/-!
# Invariants of the journal worker

`Turn` says what one step of the storage thread can do; the invariants are stated over the world and
the program point `p` of the one thread that may still run, so that none of them reads the list of
threads. They are: `Charged`, the reserved quota is the charge of the owned attempts; `Fits`, the
active slot, the queue and the failure at each program point; `Ordered`, attempts are taken and
executed in order; `Outcomes`, the published outcomes are the logged ones; `Owed`, an attempt without
an outcome is in the worker's hands.
-/

namespace LuaSkills.Embedded

open List Option WriterCenter

/-- What an outcome looks like on its receipt. -/
def JournalWriteSnapshot.ofResult : EmbeddedResult ℕ → JournalWriteSnapshot
  | .ok revision => ⟨.completed, some revision, none⟩
  | .error error => ⟨.completed, none, some error⟩

namespace ThreadPoint

/-- Inside the supervised `run`. -/
def Running : ThreadPoint → Prop
  | .fetch | .claimed _ | .writing _ | .written _ _ | .published _ => True
  | _ => False

/-- The attempts that `fail` took and has not completed. -/
def hands : ThreadPoint → List ℕ
  | .settling _ hands => hands
  | .dropping _ resume => resume.hands
  | _ => []

/-- The attempt whose outcome the thread will publish. -/
def unpublished : ThreadPoint → List ℕ
  | .claimed id | .writing id | .written id _ => [id]
  | _ => []

/-- What the metadata shows while the thread stands at a point. -/
def Fits (s : WriterState) : ThreadPoint → Prop
  | .fetch | .dropping _ .next => s.active = none ∧ s.failure = none
  | .claimed id | .writing id | .written id _ | .published id => s.active = some id ∧ s.failure = none
  | .dropping _ (.fail _) | .failing _ => s.failure = none
  | .dropping _ (.settle _ _) | .settling _ _ =>
    s.active = none ∧ s.queued = [] ∧ s.failure.isSome
  | .exited panicked =>
    panicked = false ∧ s.active = none ∧ s.queued = [] ∧ s.admissionClosed

end ThreadPoint

theorem JournalWriteSnapshot.ofResult_inj (h : JournalWriteSnapshot.ofResult x = .ofResult y) : x = y := by
  cases x <;> cases y <;> simp_all [JournalWriteSnapshot.ofResult]

theorem WriterCenter.write_revision (C : WriterCenter) {journal : JournalState}
    {request : WriteRequest} {faults : TransactionFaults} {revision : ℕ}
    (h : (C.write journal request faults).2 = .ok revision) :
    revision = request.expectedRevision.getD 0 + 1 := by
  obtain ⟨record, hr, rfl⟩ := OperationJournal.map_eq_ok.1 h
  split at hr
  · next x hp =>
    obtain ⟨_, _, rfl⟩ := OperationJournal.map_eq_ok.1 hr
    exact (OperationJournal.prepareWrite_ok hp).2.2.2.1
  · cases hr

namespace WriterWorld

/-- The owners of attempts when only the thread at `p` holds any in its locals. -/
def ownersAt (w : WriterWorld) (p : ThreadPoint) : Multiset ℕ :=
  w.clients + (w.state.queued : Multiset ℕ) + (w.state.active.toList : Multiset ℕ) +
    (p.held : Multiset ℕ)

def Completed (w : WriterWorld) (id : ℕ) : Prop := id ∈ w.completed.map Prod.fst

/-- The reserved quota is the charge of the attempts that still have an owner. -/
structure Charged (C : WriterCenter) (w : WriterWorld) (owners : Multiset ℕ) : Prop where
  known : ∀ id ∈ owners, id < w.receipts.length
  writes : w.state.pendingWrites = owners.charge fun _ => 1
  bytes : w.state.pendingBytes = owners.charge w.bytes
  writes_le : w.state.pendingWrites ≤ C.config.maxPendingWrites
  bytes_le : w.state.pendingBytes ≤ C.config.maxPendingBytes
  underflow : w.underflow = false

/-- What the admitted attempts were charged for. -/
def charges (w : WriterWorld) : List (WriteRequest × ℕ) := w.receipts.map fun r => (r.request, r.bytes)

/-- The charge of an attempt is the encoded size of its request. -/
def Sized (C : WriterCenter) (w : WriterWorld) : Prop := ∀ x ∈ w.charges, x.2 = C.requestSize x.1

def executions (w : WriterWorld) : List (ℕ × ℕ) := w.executed.map fun x => (x.thread, x.attempt)

/-- Attempts are taken in admission order, each once, and executed by the thread that took them. -/
structure Ordered (n : ℕ) (w : WriterWorld) (p : ThreadPoint) : Prop where
  sorted : (w.started.map Prod.snd ++ w.state.queued).Pairwise (· < ·)
  bound : ∀ id ∈ w.started.map Prod.snd ++ w.state.queued, id < w.receipts.length
  sublist : w.executions.Sublist w.started
  unexecuted : ∀ id, p = .claimed id ∨ p = .writing id →
    ∃ before, w.started = before ++ [(n, id)] ∧ w.executions.Sublist before
  written : ∀ id result, p = .written id result → ⟨n, id, result⟩ ∈ w.executed

/-- A successful execution answers with the successor of the revision it was asked to replace. -/
def Answered (w : WriterWorld) : Prop :=
  ∀ x ∈ w.executed, ∀ revision, x.result = .ok revision →
    ∃ c ∈ w.charges[x.attempt]?, revision = c.1.expectedRevision.getD 0 + 1

structure Outcomes (w : WriterWorld) : Prop where
  nodup : (w.completed.map Prod.fst).Nodup
  published : ∀ x ∈ w.completed, ∃ receipt, w.receipts[x.1]? = some receipt ∧
    receipt.snapshot = .ofResult x.2
  unpublished : ∀ id receipt, w.receipts[id]? = some receipt → ¬ w.Completed id →
    receipt.snapshot.phase ≠ .completed ∧ receipt.snapshot.revision = none ∧
      receipt.snapshot.error = none
  source : ∀ x ∈ w.completed, (∃ i, ⟨i, x.1, x.2⟩ ∈ w.executed) ∨ ∃ e, x.2 = .error e

/-- An attempt without an outcome is active, queued or taken by `fail`. -/
structure Owed (w : WriterWorld) (p : ThreadPoint) : Prop where
  owed : ∀ id < w.receipts.length, ¬ w.Completed id →
    id ∈ w.state.active.toList ++ p.hands ++ w.state.queued
  fresh : ∀ id ∈ w.state.queued, ¬ w.Completed id
  unpublished : ∀ id ∈ p.unpublished, ¬ w.Completed id
  published : ∀ id, p = .published id → w.Completed id

structure Inv (C : WriterCenter) (w : WriterWorld) (n : ℕ) (p : ThreadPoint) : Prop where
  threads : w.threads = replicate n (.exited false) ++ [p]
  worker : w.worker = ⟨some n, false⟩ ∨ w.worker = ⟨none, false⟩ ∧ p = .exited false
  fits : p.Fits w.state
  charged : w.Charged C (w.ownersAt p)
  sized : w.Sized C
  answered : w.Answered
  ordered : w.Ordered n p
  outcomes : w.Outcomes
  owed : w.Owed p

/-- Worlds with the same queue, active slot, receipts and logs. -/
structure Agrees (w w' : WriterWorld) : Prop where
  queued : w'.state.queued = w.state.queued
  active : w'.state.active = w.state.active
  receipts : w'.receipts = w.receipts
  started : w'.started = w.started
  executed : w'.executed = w.executed
  completed : w'.completed = w.completed

/-- Quota, program point and lifecycle flags are the business of `Charged` and `Fits` alone. -/
theorem Inv.frame {w : WriterWorld} (H : w.Inv C n p) (A : Agrees w w') (threads : w'.threads = w.threads)
    (worker : w'.worker = ⟨some n, false⟩ ∨ w'.worker = ⟨none, false⟩ ∧ p = .exited false)
    (fits : p.Fits w'.state) (charged : w'.Charged C (w'.ownersAt p)) : w'.Inv C n p := by
  obtain ⟨hq, ha, hr, hs, he, hc⟩ := A
  refine ⟨threads.trans H.threads, worker, fits, charged, ?_, ?_, ?_, ?_, ?_⟩
  · simpa only [Sized, charges, hr] using H.sized
  · simpa only [Answered, charges, hr, he] using H.answered
  · obtain ⟨h₁, h₂, h₃, h₄, h₅⟩ := H.ordered
    refine ⟨?_, ?_, ?_, ?_, ?_⟩ <;> simpa only [executions, hq, hr, hs, he]
  · obtain ⟨h₁, h₂, h₃, h₄⟩ := H.outcomes
    refine ⟨?_, ?_, ?_, ?_⟩ <;> simpa only [Completed, hr, hc, he]
  · obtain ⟨h₁, h₂, h₃, h₄⟩ := H.owed
    refine ⟨?_, ?_, ?_, ?_⟩ <;> simpa only [Completed, hq, ha, hr, hc]

/-! ## One step of the thread -/

/-- What one step of the storage thread does to the world beside its own program point. -/
inductive Turn (C : WriterCenter) (n : ℕ) (fault : ThreadFault) (faults : TransactionFaults)
    (w : WriterWorld) :
    ThreadPoint → WriterWorld → ThreadPoint → Prop where
  | wait : w.state.queued = [] → Turn C n fault faults w .fetch w .fetch
  | unwind {p : ThreadPoint} (error : EmbeddedError) :
    p.Running → fault ≠ .none → Turn C n fault faults w p w (.dropping p.held (.fail error))
  | claim {id : ℕ} {queued : List ℕ} : w.state.queued = id :: queued →
    Turn C n fault faults w .fetch { w with
      state := { w.state with queued, active := some id }
      started := w.started ++ [(n, id)] } (.claimed id)
  | leave : w.state.queued = [] → w.state.admissionClosed = true →
    Turn C n fault faults w .fetch w (.exited false)
  | announce {id : ℕ} : Turn C n fault faults w (.claimed id) (w.setPhase id .writing) (.writing id)
  | execute {id : ℕ} {receipt : ReceiptState} : w.receipts[id]? = some receipt →
    Turn C n fault faults w (.writing id) { w with
      journal := (C.write w.journal receipt.request faults).1
      executed := w.executed ++ [⟨n, id, (C.write w.journal receipt.request faults).2⟩] }
      (.written id (C.write w.journal receipt.request faults).2)
  | publish {id : ℕ} {result : EmbeddedResult ℕ} :
    Turn C n fault faults w (.written id result) (w.complete id result) (.published id)
  | vacate {id : ℕ} : Turn C n fault faults w (.published id) { w with
      state := { w.state with active := none } } (.dropping [id, id] .next)
  | drop {id : ℕ} {rest : List ℕ} {resume : Resume} {pendingWrites pendingBytes : ℕ} :
    Charged C { w with state := { w.state with pendingWrites, pendingBytes } }
      (w.ownersAt (.dropping rest resume)) →
    Turn C n fault faults w (.dropping (id :: rest) resume)
      { w with state := { w.state with pendingWrites, pendingBytes } } (.dropping rest resume)
  | next : Turn C n fault faults w (.dropping [] .next) w .fetch
  | fail {error : EmbeddedError} : Turn C n fault faults w (.dropping [] (.fail error)) w (.failing error)
  | settle {error : EmbeddedError} {hands : List ℕ} :
    Turn C n fault faults w (.dropping [] (.settle error hands)) w (.settling error hands)
  | take {error : EmbeddedError} : Turn C n fault faults w (.failing error)
      { w with state := (failTake w.state error).1 }
      (.settling error (w.state.active.toList ++ w.state.queued))
  | complete {error : EmbeddedError} {id : ℕ} {hands : List ℕ} :
    Turn C n fault faults w (.settling error (id :: hands)) (w.complete id (.error error))
      (.dropping [id] (.settle error hands))
  | finish {error : EmbeddedError} : Turn C n fault faults w (.settling error []) w (.exited false)
  | rest {panicked : Bool} : Turn C n fault faults w (.exited panicked) w (.exited panicked)

section
variable {C : WriterCenter} {n : ℕ} {w w' : WriterWorld} {p p' : ThreadPoint}

theorem held_replicate :
    (replicate n (ThreadPoint.exited false) ++ [p]).flatMap ThreadPoint.held = p.held := by
  induction n with
  | zero => simp
  | succ n ih => simp [ThreadPoint.held]

theorem owners_eq (h : w.threads = replicate n (.exited false) ++ [p]) :
    w.owners = w.ownersAt p := by
  rw [owners, h, held_replicate, ownersAt]

theorem threads_set (h : w.threads = replicate n (.exited false) ++ [p]) :
    (w.setThread n p').threads = replicate n (.exited false) ++ [p'] := by
  simp [setThread, h]

/-! ## Quota -/

namespace Charged
variable {owners owners' : Multiset ℕ}

/-- The invariant reads only the charges of receipts. -/
theorem congr (H : w.Charged C owners) (hr : w'.charges = w.charges) (hw : w'.state.pendingWrites = w.state.pendingWrites)
    (hb : w'.state.pendingBytes = w.state.pendingBytes) (hu : w'.underflow = w.underflow)
    (ho : owners' = owners) : w'.Charged C owners' := by
  subst ho
  have hlen : w'.receipts.length = w.receipts.length := by
    simpa [charges] using congrArg length hr
  have hbytes : w'.bytes = w.bytes := by
    funext id
    have hcharge : ∀ v : WriterWorld, v.bytes id = (v.charges[id]?.map Prod.snd).getD 0 := by
      intro v
      rw [WriterWorld.bytes, charges, getElem?_map, Option.map_map]
      rfl
    rw [hcharge, hcharge, hr]
  exact {
    known := fun id hid => hlen ▸ H.known id hid
    writes := hw.trans H.writes
    bytes := by rw [hb, hbytes, H.bytes]
    writes_le := hw ▸ H.writes_le
    bytes_le := hb ▸ H.bytes_le
    underflow := hu.trans H.underflow }

/-- When an owner of `id` has gone, the destructor finds what it subtracts. -/
theorem releaseLast {id : ℕ} (H : w.Charged C (id ::ₘ w.owners)) :
    ∃ pendingWrites pendingBytes, w.releaseLast id = some { w with
        state := { w.state with pendingWrites, pendingBytes } } ∧
      Charged C { w with state := { w.state with pendingWrites, pendingBytes } } w.owners := by
  by_cases hid : id ∈ w.owners
  · refine ⟨w.state.pendingWrites, w.state.pendingBytes, if_pos hid, ?_⟩
    exact { H with
      known := fun x hx => H.known x (Multiset.mem_cons_of_mem hx)
      writes := by rw [H.writes, Multiset.charge_cons_of_mem hid]
      bytes := by rw [H.bytes, Multiset.charge_cons_of_mem hid]; rfl }
  · have hw := H.writes
    have hb := H.bytes
    rw [Multiset.charge_cons_of_notMem hid] at hw hb
    have hwl := H.writes_le
    have hbl := H.bytes_le
    refine ⟨w.state.pendingWrites - 1, w.state.pendingBytes - w.bytes id, ?_, ?_⟩
    · rw [WriterWorld.releaseLast, if_neg hid, WriterState.release, checkedSub_of_le (by omega),
        checkedSub_of_le (by omega)]
      rfl
    · exact {
        known := fun x hx => H.known x (Multiset.mem_cons_of_mem hx)
        writes := by simp only; omega
        bytes := (Nat.sub_eq_iff_eq_add' (by omega)).2 hb
        writes_le := by simp only; omega
        bytes_le := by simp only; omega
        underflow := H.underflow }

end Charged

/-- A further owner of an owned attempt costs nothing. -/
theorem Charged.cons {owners : Multiset ℕ} {id : ℕ} (H : w.Charged C owners) (h : id ∈ owners) :
    w.Charged C (id ::ₘ owners) := { H with
  known x hx := by
    rcases Multiset.mem_cons.1 hx with rfl | hx
    · exact H.known _ h
    · exact H.known _ hx
  writes := by rw [Multiset.charge_cons_of_mem h, H.writes]
  bytes := by rw [Multiset.charge_cons_of_mem h, H.bytes] }

theorem map_modify {α β : Type} {f : α → α} {g : α → β} (h : ∀ a, g (f a) = g a) (l : List α)
    (i : ℕ) : (l.modify i f).map g = l.map g := by
  apply ext_getElem?
  intro j
  rw [getElem?_map, getElem?_map, getElem?_modify]
  cases l[j]? with
  | none => rfl
  | some a =>
    simp only [Option.map_eq_map, Option.map_some]
    split
    · rw [h]
    · rfl

theorem charges_complete (w : WriterWorld) (id : ℕ) (result : EmbeddedResult ℕ) :
    (w.complete id result).charges = w.charges := by
  refine map_modify (fun receipt => ?_) _ _
  unfold ReceiptState.complete
  split <;> rfl

theorem charges_setPhase (w : WriterWorld) (id : ℕ) (phase : JournalWritePhase) :
    (w.setPhase id phase).charges = w.charges := by
  refine map_modify ?_ _ _
  exact fun _ => rfl

/-! ## Outcomes -/

theorem ofResult_phase (result : EmbeddedResult ℕ) :
    (JournalWriteSnapshot.ofResult result).phase = .completed := by
  cases result <;> rfl

namespace Outcomes
variable {id : ℕ} {receipt : ReceiptState} {result : EmbeddedResult ℕ}

theorem phase_iff (H : w.Outcomes) (hr : w.receipts[id]? = some receipt) :
    receipt.snapshot.phase = .completed ↔ w.Completed id := by
  constructor
  · intro hp
    by_contra hc
    exact (H.unpublished id receipt hr hc).1 hp
  · intro hc
    obtain ⟨x, hx, rfl⟩ := mem_map.1 hc
    obtain ⟨receipt', hr', hs⟩ := H.published x hx
    cases hr.symm.trans hr'
    rw [hs, ofResult_phase]

theorem of_completed (H : w.Outcomes) (hr : w.receipts[id]? = some receipt)
    (hp : receipt.snapshot.phase = .completed) :
    ∃ result, (id, result) ∈ w.completed ∧ receipt.snapshot = .ofResult result := by
  obtain ⟨x, hx, rfl⟩ := mem_map.1 ((H.phase_iff hr).1 hp)
  obtain ⟨receipt', hr', hs⟩ := H.published x hx
  cases hr.symm.trans hr'
  exact ⟨x.2, hx, hs⟩

theorem complete_of_completed (H : w.Outcomes) (hc : w.Completed id) : w.complete id result = w := by
  obtain ⟨x, hx, rfl⟩ := mem_map.1 hc
  obtain ⟨receipt, hr, hs⟩ := H.published x hx
  have hp : receipt.snapshot.phase = .completed := (H.phase_iff hr).2 hc
  have hm : w.receipts.modify x.1 (·.complete result) = w.receipts := by
    apply ext_getElem?
    intro j
    rw [getElem?_modify]
    by_cases hj : x.1 = j
    · subst hj
      simp [hr, ReceiptState.complete, hp]
    · simp [hj]
  simp [WriterWorld.complete, hm, hr, hp]

/-- A fresh outcome is logged and shown on its receipt. -/
theorem complete_of_not (H : w.Outcomes) (hr : w.receipts[id]? = some receipt)
    (hc : ¬ w.Completed id) : w.complete id result = { w with
      receipts := w.receipts.set id { receipt with snapshot := .ofResult result }
      completed := w.completed ++ [(id, result)] } := by
  obtain ⟨hp, hrev, herr⟩ := H.unpublished id receipt hr hc
  have hid : id < w.receipts.length := (List.getElem?_eq_some_iff.1 hr).1
  have hm : w.receipts.modify id (·.complete result) =
      w.receipts.set id { receipt with snapshot := .ofResult result } := by
    apply ext_getElem?
    intro j
    rw [getElem?_modify, getElem?_set]
    by_cases hj : id = j
    · subst hj
      rw [hr, if_pos rfl, if_pos hid]
      cases result <;> simp [ReceiptState.complete, hp, hrev, herr, JournalWriteSnapshot.ofResult]
    · simp [hj]
  simp [WriterWorld.complete, hm, hr, hp]

theorem completed_complete (H : w.Outcomes) (hid : id < w.receipts.length) (x : ℕ) :
    (w.complete id result).Completed x ↔ w.Completed x ∨ x = id := by
  by_cases hc : w.Completed id
  · rw [H.complete_of_completed hc]
    exact ⟨.inl, fun h => h.elim (fun h => h) (· ▸ hc)⟩
  · rw [H.complete_of_not (getElem?_eq_getElem hid) hc]
    simp [Completed]

theorem complete (H : w.Outcomes) (hid : id < w.receipts.length)
    (hs : (∃ i, ⟨i, id, result⟩ ∈ w.executed) ∨ ∃ e, result = .error e) :
    (w.complete id result).Outcomes := by
  by_cases hc : w.Completed id
  · rwa [H.complete_of_completed hc]
  · rw [H.complete_of_not (getElem?_eq_getElem hid) hc]
    refine ⟨?_, ?_, ?_, ?_⟩
    · rw [map_append, nodup_append]
      exact ⟨H.nodup, by simp, fun a ha b hb hab => hc (by simp_all [Completed])⟩
    · intro x hx
      rcases mem_append.1 hx with hx | hx
      · obtain ⟨receipt, hr, hsnap⟩ := H.published x hx
        have hne : id ≠ x.1 := fun h => hc (h ▸ mem_map_of_mem hx)
        exact ⟨receipt, by rw [getElem?_set_ne hne, hr], hsnap⟩
      · cases mem_singleton.1 hx
        exact ⟨_, getElem?_set_self hid, rfl⟩
    · intro x receipt hr hx
      simp only [Completed, map_append, mem_append, not_or] at hx
      have hne : id ≠ x := fun h => hx.2 (by simp [h])
      rw [getElem?_set_ne hne] at hr
      exact H.unpublished x receipt hr hx.1
    · intro x hx
      rcases mem_append.1 hx with hx | hx
      · exact H.source x hx
      · cases mem_singleton.1 hx
        exact hs

/-- Announcing the write of an attempt without an outcome. -/
theorem setPhase (H : w.Outcomes) (hc : ¬ w.Completed id) : (w.setPhase id .writing).Outcomes := by
  refine ⟨H.nodup, ?_, ?_, H.source⟩
  · intro x hx
    obtain ⟨receipt, hr, hs⟩ := H.published x hx
    have hne : id ≠ x.1 := fun h => hc (h ▸ mem_map_of_mem hx)
    exact ⟨receipt, by simp [WriterWorld.setPhase, hne, hr], hs⟩
  · intro x receipt hr hx
    simp only [WriterWorld.setPhase, getElem?_modify] at hr
    obtain ⟨original, ho, rfl⟩ := map_eq_some_iff.1 hr
    have hu := H.unpublished x original ho hx
    split
    · exact ⟨by simp, hu.2⟩
    · exact hu

end Outcomes

/-- The steps of `advance` from a reachable world: a destructor never underflows, an attempt is known
and the active slot holds the published one. -/
theorem Inv.turn (H : w.Inv C n p) (fault : ThreadFault) (faults : TransactionFaults) :
    ∃ w' p', Turn C n fault faults w p w' p' ∧ C.advance w n faults p fault = w'.setThread n p' := by
  have stay : w.setThread n p = w := by
    have : w.threads.set n p = w.threads := by simp [H.threads]
    rw [setThread, this]
  cases p with
  | fetch =>
    cases fault with
    | panicked | poisoned => exact ⟨w, _, .unwind _ trivial nofun, rfl⟩
    | none =>
      simp only [advance]
      split
      · next id queued hq => exact ⟨_, _, .claim hq, rfl⟩
      · next hq =>
        split
        · next hc => exact ⟨w, _, .leave hq hc, rfl⟩
        · exact ⟨w, _, .wait hq, stay.symm⟩
  | claimed id =>
    cases fault with
    | panicked | poisoned => exact ⟨w, _, .unwind _ trivial nofun, rfl⟩
    | none => exact ⟨_, _, .announce, rfl⟩
  | writing id =>
    have hid : id < w.receipts.length := H.charged.known id (by simp [ownersAt, ThreadPoint.held])
    cases fault with
    | panicked => exact ⟨w, _, .unwind _ trivial nofun, rfl⟩
    | poisoned | none =>
      simp only [advance, getElem?_eq_getElem hid]
      exact ⟨_, _, .execute (getElem?_eq_getElem hid), rfl⟩
  | written id result =>
    cases fault with
    | panicked => exact ⟨w, _, .unwind _ trivial nofun, rfl⟩
    | poisoned | none => exact ⟨_, _, .publish, rfl⟩
  | published id =>
    cases fault with
    | panicked | poisoned => exact ⟨w, _, .unwind _ trivial nofun, rfl⟩
    | none =>
      have ha : w.state.active = some id := H.fits.1
      refine ⟨_, _, .vacate, ?_⟩
      simp only [advance, ha, toList_some, cons_append, nil_append]
  | dropping held resume =>
    cases held with
    | nil =>
      cases resume with
      | next => exact ⟨w, _, .next, rfl⟩
      | fail error => exact ⟨w, _, .fail, rfl⟩
      | settle error hands => exact ⟨w, _, .settle, rfl⟩
    | cons id rest =>
      have ho : (w.setThread n (.dropping rest resume)).owners = w.ownersAt (.dropping rest resume) :=
        owners_eq (threads_set H.threads)
      have hc : (w.setThread n (.dropping rest resume)).Charged C
          (id ::ₘ (w.setThread n (.dropping rest resume)).owners) := by
        refine H.charged.congr rfl rfl rfl rfl ?_
        rw [ho]
        simp [ownersAt, ThreadPoint.held, ← Multiset.cons_coe, Multiset.add_cons]
      obtain ⟨pendingWrites, pendingBytes, hrel, hch⟩ := hc.releaseLast
      refine ⟨{ w with state := { w.state with pendingWrites, pendingBytes } }, _, .drop ?_, ?_⟩
      · exact hch.congr rfl rfl rfl rfl ho.symm
      · simp only [advance, dropLocal, hrel]
        rfl
  | failing error => exact ⟨_, _, .take, rfl⟩
  | settling error hands =>
    cases hands with
    | nil => exact ⟨w, _, .finish, rfl⟩
    | cons id hands => exact ⟨_, _, .complete, rfl⟩
  | exited panicked => exact ⟨w, _, .rest, stay.symm⟩

/-! ## What a step preserves -/

namespace Turn
variable {fault : ThreadFault} {faults : TransactionFaults} (T : Turn C n fault faults w p w' p')
include T

theorem charged (hf : p.Fits w.state) (H : w.Charged C (w.ownersAt p)) :
    w'.Charged C (w'.ownersAt p') := by
  cases T with
  | wait | leave | next | fail | settle | finish | rest => exact H
  | unwind error hp =>
    refine H.congr rfl rfl rfl rfl ?_
    simp [ownersAt, ThreadPoint.held, Resume.hands]
  | @claim id queued hq =>
    have hmem : id ∈ w.ownersAt .fetch := by simp [ownersAt, hq]
    refine (H.cons hmem).congr rfl rfl rfl rfl ?_
    simp only [ownersAt, hq, hf.1, ThreadPoint.held, ← Multiset.cons_coe, toList_some,
      toList_none, Multiset.coe_nil, Multiset.add_cons, add_zero]
  | announce => exact H.congr (charges_setPhase ..) rfl rfl rfl rfl
  | execute => exact H.congr rfl rfl rfl rfl rfl
  | publish => exact H.congr (charges_complete ..) rfl rfl rfl rfl
  | vacate =>
    refine H.congr rfl rfl rfl rfl ?_
    simp only [ownersAt, hf.1, ThreadPoint.held, Resume.hands, ← Multiset.cons_coe,
      toList_some, toList_none, Multiset.coe_nil, Multiset.add_cons, add_zero,
      append_nil]
  | drop hc => exact hc
  | take =>
    refine H.congr rfl rfl rfl rfl ?_
    simp only [ownersAt, failTake, ThreadPoint.held, ← Multiset.coe_add,
      toList_none, Multiset.coe_nil, add_zero, add_assoc]
    rw [add_comm (w.state.active.toList : Multiset ℕ)]
  | complete => exact H.congr (charges_complete ..) rfl rfl rfl rfl

theorem charges : w'.charges = w.charges := by
  cases T with
  | announce => exact charges_setPhase ..
  | publish | complete => exact charges_complete ..
  | _ => rfl

theorem answered (H : w.Answered) : w'.Answered := by
  intro x hx revision hr
  rw [T.charges]
  cases T with
  | @execute id receipt hreceipt =>
    rcases mem_append.1 hx with hx | hx
    · exact H x hx revision hr
    · cases mem_singleton.1 hx
      refine ⟨(receipt.request, receipt.bytes), ?_, C.write_revision hr⟩
      rw [WriterWorld.charges, getElem?_map, hreceipt]
      rfl
  | _ => exact H x hx revision hr

theorem fits (hf : p.Fits w.state) : p'.Fits w'.state := by
  cases T with
  | wait | announce | execute | publish | next | fail | settle | complete | rest => exact hf
  | unwind error hp =>
    cases p with
    | fetch | claimed | writing | written | published => exact hf.2
    | dropping | failing | settling | exited => exact hp.elim
  | claim hq => exact ⟨rfl, hf.2⟩
  | leave hq hc => exact ⟨rfl, hf.1, hq, hc⟩
  | vacate => exact ⟨rfl, hf.2⟩
  | @drop _ rest resume =>
    cases resume with
    | next | fail | settle => exact hf
  | take => exact ⟨rfl, rfl, rfl⟩
  | finish => exact ⟨rfl, hf.1, hf.2.1, by simp [WriterState.admissionClosed, hf.2.2]⟩

theorem ordered (H : w.Ordered n p) : w'.Ordered n p' := by
  obtain ⟨sorted, bound, sublist, unexecuted, written⟩ := H
  cases T with
  | wait | rest => exact ⟨sorted, bound, sublist, unexecuted, written⟩
  | unwind | leave | vacate | next | fail | settle | finish | drop =>
    exact ⟨sorted, bound, sublist, by simp, by simp⟩
  | @claim id queued hq =>
    have hs : (w.started ++ [(n, id)]).map Prod.snd ++ queued =
        w.started.map Prod.snd ++ w.state.queued := by simp [hq]
    refine ⟨hs ▸ sorted, hs ▸ bound, sublist.trans (sublist_append_left _ _), ?_, by simp⟩
    rintro x (hx | hx) <;> cases hx
    exact ⟨w.started, rfl, sublist⟩
  | @announce id =>
    have hlen : (w.setPhase id .writing).receipts.length = w.receipts.length := by
      simp [setPhase]
    refine ⟨sorted, fun x hx => hlen ▸ bound x hx, sublist, ?_, by simp⟩
    rintro x (hx | hx) <;> cases hx
    exact unexecuted id (.inl rfl)
  | @execute id receipt hr =>
    obtain ⟨before, hb, hs⟩ := unexecuted id (.inr rfl)
    refine ⟨sorted, bound, ?_, by simp, ?_⟩
    · simp only [executions, map_append, map_cons, map_nil]
      rw [hb]
      exact hs.append (Sublist.refl _)
    · intro x r hx
      cases hx
      simp
  | publish | complete =>
    refine ⟨sorted, fun x hx => ?_, sublist, by simp, by simp⟩
    simpa [WriterWorld.complete] using bound x hx
  | take =>
    have hsub : (w.started.map Prod.snd ++ []).Sublist (w.started.map Prod.snd ++ w.state.queued) :=
      (Sublist.refl _).append (nil_sublist _)
    exact ⟨sorted.sublist hsub, fun x hx => bound x (hsub.subset hx), sublist, by simp, by simp⟩

theorem outcomes (hc : w.Charged C (w.ownersAt p)) (ho : w.Ordered n p) (hw : w.Owed p)
    (H : w.Outcomes) : w'.Outcomes := by
  have known : ∀ id ∈ p.held, id < w.receipts.length := fun id hid =>
    hc.known id (by simp [ownersAt, hid])
  cases T with
  | wait | unwind | claim | leave | vacate | drop | next | fail | settle | take | finish | rest =>
    exact ⟨H.nodup, H.published, H.unpublished, H.source⟩
  | announce => exact H.setPhase (hw.unpublished _ (by simp [ThreadPoint.unpublished]))
  | execute =>
    refine ⟨H.nodup, H.published, H.unpublished, fun x hx => ?_⟩
    rcases H.source x hx with ⟨i, hi⟩ | h
    · exact .inl ⟨i, mem_append_left _ hi⟩
    · exact .inr h
  | publish =>
    exact H.complete (known _ (by simp [ThreadPoint.held])) (.inl ⟨n, ho.written _ _ rfl⟩)
  | complete =>
    exact H.complete (known _ (by simp [ThreadPoint.held])) (.inr ⟨_, rfl⟩)

theorem owed (hf : p.Fits w.state) (hc : w.Charged C (w.ownersAt p)) (hs : w.Ordered n p)
    (ho : w.Outcomes) (H : w.Owed p) : w'.Owed p' := by
  have known : ∀ id ∈ p.held, id < w.receipts.length := fun id hid =>
    hc.known id (by simp [ownersAt, hid])
  obtain ⟨owed, fresh, unpublished, published⟩ := H
  cases T with
  | wait | rest => exact ⟨owed, fresh, unpublished, published⟩
  | leave | drop | next | fail | settle | finish =>
    exact ⟨owed, fresh, by simp [ThreadPoint.unpublished], by simp⟩
  | unwind error hp =>
    refine ⟨fun id hid hn => ?_, fresh, by simp [ThreadPoint.unpublished], by simp⟩
    cases p with
    | fetch | claimed | writing | written | published => exact owed id hid hn
    | dropping | failing | settling | exited => exact hp.elim
  | @claim id queued hq =>
    refine ⟨fun x hx hn => ?_, fun x hx => fresh x (by simp [hq, hx]), ?_, by simp⟩
    · simpa [hq, hf.1, ThreadPoint.hands] using owed x hx hn
    · intro x hx
      cases mem_singleton.1 hx
      exact fresh id (by simp [hq])
  | announce =>
    refine ⟨fun x hx hn => owed x ?_ hn, fresh, unpublished, by simp⟩
    simpa [setPhase] using hx
  | execute => exact ⟨owed, fresh, unpublished, by simp⟩
  | @publish id result =>
    have hid := known id (by simp [ThreadPoint.held])
    refine ⟨fun x hx hn => ?_, fun x hx hn => ?_, by simp [ThreadPoint.unpublished], ?_⟩
    · rw [ho.completed_complete hid] at hn
      exact owed x (by simpa [WriterWorld.complete] using hx) fun h => hn (.inl h)
    · -- the published attempt was started, so every queued one was admitted after it
      have hlt : id < x := by
        have hstarted : (n, id) ∈ w.started :=
          hs.sublist.subset (mem_map.2 ⟨_, hs.written id result rfl, rfl⟩)
        exact (pairwise_append.1 hs.sorted).2.2 id (mem_map_of_mem hstarted) x hx
      rw [ho.completed_complete hid] at hn
      exact hn.elim (fresh x hx) (Nat.ne_of_gt hlt)
    · rintro x hx
      cases hx
      exact (ho.completed_complete hid id).2 (.inr rfl)
  | @vacate id =>
    refine ⟨fun x hx hn => ?_, fresh, by simp [ThreadPoint.unpublished], by simp⟩
    have hne : x ≠ id := fun h => hn (h ▸ published id rfl)
    simpa [hf.1, hne, ThreadPoint.hands, Resume.hands] using owed x hx hn
  | take =>
    refine ⟨fun x hx hn => ?_, by simp [failTake], by simp [ThreadPoint.unpublished],
      by simp⟩
    simpa [ThreadPoint.hands, failTake] using owed x hx hn
  | @complete error id hands =>
    have hid := known id (by simp [ThreadPoint.held])
    have hq : (w.complete id (.error error)).state.queued = [] := hf.2.1
    refine ⟨fun x hx hn => ?_, by simp [hq], by simp [ThreadPoint.unpublished], by simp⟩
    rw [ho.completed_complete hid, not_or] at hn
    have hx' := owed x (by simpa [WriterWorld.complete] using hx) hn.1
    simpa [ThreadPoint.hands, WriterWorld.complete, Resume.hands, hn.2] using hx'

end Turn

theorem Inv.step_self (H : w.Inv C n p) (fault : ThreadFault) (faults : TransactionFaults) :
    ∃ w' p', Turn C n fault faults w p w' p' ∧ C.step w n fault faults = w'.setThread n p' ∧
      (w'.setThread n p').Inv C n p' := by
  obtain ⟨w', p', T, ht⟩ := H.turn fault faults
  have hp : w.threads[n]? = some p := by simp [H.threads]
  have hthreads : w'.threads = w.threads := by
    cases T <;> rfl
  have hworker : w'.worker = w.worker := by
    cases T <;> rfl
  refine ⟨w', p', T, by rw [step, hp]; exact ht, ?_⟩
  refine ⟨threads_set (hthreads.trans H.threads), ?_, T.fits H.fits,
    (T.charged H.fits H.charged).congr rfl rfl rfl rfl rfl, ?_, ?_, ?_, ?_, ?_⟩
  · rcases H.worker with h | ⟨h, rfl⟩
    · exact .inl (hworker.trans h)
    · cases T with
      | unwind _ hp => exact hp.elim
      | rest => exact .inr ⟨h, rfl⟩
  · intro x hx
    exact H.sized x (T.charges ▸ hx)
  · exact T.answered H.answered
  · obtain ⟨h₁, h₂, h₃, h₄, h₅⟩ := T.ordered H.ordered
    exact ⟨h₁, h₂, h₃, h₄, h₅⟩
  · obtain ⟨h₁, h₂, h₃, h₄⟩ := T.outcomes H.charged H.ordered H.owed H.outcomes
    exact ⟨h₁, h₂, h₃, h₄⟩
  · obtain ⟨h₁, h₂, h₃, h₄⟩ := T.owed H.fits H.charged H.ordered H.outcomes H.owed
    exact ⟨h₁, h₂, h₃, h₄⟩

/-- An exited thread takes no further step. -/
theorem Inv.step_other (H : w.Inv C n p) (hi : i ≠ n) (fault : ThreadFault) (faults : TransactionFaults) :
    C.step w i fault faults = w := by
  have hexited : ∀ q, w.threads[i]? = some q → q = .exited false := by
    intro q hq
    rw [H.threads, getElem?_append] at hq
    split at hq
    · rw [getElem?_replicate] at hq
      split at hq
      · exact (some.inj hq).symm
      · cases hq
    · next h =>
      rw [length_replicate] at h hq
      rw [getElem?_eq_none (by simp; omega)] at hq
      cases hq
  unfold step
  split
  · next q hq =>
    cases hexited q hq
    rfl
  · rfl

end

end WriterWorld

end LuaSkills.Embedded
