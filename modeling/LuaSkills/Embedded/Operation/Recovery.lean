import LuaSkills.Embedded.Operation.Retention
import LuaSkills.Embedded.Operation.Rows

/-!
# Lost confirmations

A write may be committed and still be reported as failed: the storage loses the confirmation, or the
thread unwinds before it publishes. Once the storage is recovered, the explicit retry of the retained
candidate finds its record and acknowledges the revision that is already there, unless the storage or
the thread fails again or somebody else attests or deletes the record.
-/

namespace LuaSkills.Embedded

open List OperationWorld

def JournalCall.Faultless : JournalCall → Prop
  | .writeCheckpoint _ _ _ _ faults | .reconcile _ _ _ faults | .forget _ _ faults => faults = .none
  | .recoverStorage faults => faults = .none

namespace OperationJournal
variable {J : OperationJournal} {s : JournalState} {faults : TransactionFaults}

/-- Only an unproven transaction detaches the database. -/
def Attached (s : JournalState) : Prop := s.failure = none → s.connected = true

/-- Transactions are accepted. -/
def Ready (s : JournalState) : Prop := s.failure = none ∧ s.connected = true

section
variable {mutation : JournalTable → EmbeddedResult JournalTable}

theorem transaction_attached (h : Attached s) : Attached (transaction s faults mutation).1 := by
  unfold transaction
  split
  · exact h
  · exact h
  · split
    · split
      · exact h
      · exact fun hf => absurd hf nofun
    · split
      · exact h
      · exact fun hf => absurd hf nofun

theorem transaction_ready (h : Ready s) : Ready (transaction s .none mutation).1 := by
  unfold transaction
  split
  · exact h
  · exact h
  · split
    · exact h
    · exact h

end

theorem perform_transaction (J : OperationJournal) (s : JournalState) (call : JournalCall) :
    (J.perform s call).1 = s ∨
      (∃ faults mutation, (call.Faultless → faults = .none) ∧
        (J.perform s call).1 = (transaction s faults mutation).1) ∨
      ∃ faults, call = .recoverStorage faults := by
  cases call with
  | writeCheckpoint runtimeId previous snapshot reconcile faults =>
    simp only [perform, writeCheckpoint, guarded]
    cases J.prepareWrite runtimeId previous snapshot with
    | error e => exact .inl rfl
    | ok p => exact .inr (.inl ⟨faults, _, fun h => h, rfl⟩)
  | reconcile key expected resolution faults =>
    simp only [perform, OperationJournal.reconcile, guarded]
    cases J.prepareReconcile key expected resolution with
    | error e => exact .inl rfl
    | ok _ => exact .inr (.inl ⟨faults, _, fun h => h, rfl⟩)
  | forget key expected faults =>
    simp only [perform, forget, guarded]
    cases J.validateKey key with
    | error e => exact .inl rfl
    | ok _ => exact .inr (.inl ⟨faults, _, fun h => h, rfl⟩)
  | recoverStorage faults => exact .inr (.inr ⟨faults, rfl⟩)

theorem perform_attached (h : Attached s) (call : JournalCall) : Attached (J.perform s call).1 := by
  rcases perform_transaction J s call with he | ⟨faults, mutation, -, he⟩ | ⟨faults, rfl⟩
  · rwa [he]
  · rw [he]
    exact transaction_attached h
  · simp only [perform, recoverStorage]
    split
    · exact h
    · next e he =>
      have detached : Attached { s with connected := false } := fun hf => by
        cases he.symm.trans hf
      split
      · exact h
      · split
        · exact detached
        · exact detached
        · exact detached
        · exact fun _ => rfl

theorem perform_ready {a : JournalCall} (hc : a.Faultless) (h : Ready s) :
    Ready (J.perform s a).1 := by
  rcases perform_transaction J s a with he | ⟨faults, mutation, hf, he⟩ | ⟨faults, rfl⟩
  · rwa [he]
  · rw [he, hf hc]
    exact transaction_ready h
  · simp only [perform, recoverStorage, h.1]
    exact h

/-- Recovery reopens a sound database with everything that was committed. -/
theorem recoverStorage_ready (H : J.Sound s.table) (h : Attached s) :
    Ready (J.recoverStorage s .none).1 ∧ (J.recoverStorage s .none).1.table = s.table := by
  cases hf : s.failure with
  | none =>
    simp only [recoverStorage, hf]
    exact ⟨⟨hf, h hf⟩, trivial⟩
  | some e =>
    simp [recoverStorage, hf, RecoveryFaults.none, H.validateContents, Ready]

end OperationJournal

/-! ## The thread -/

def ThreadPoint.Steady : ThreadPoint → Prop
  | .fetch | .claimed _ | .writing _ | .written _ _ | .published _ | .dropping _ .next => True
  | _ => False

namespace WriterWorld
variable {C : WriterCenter} {n id revision : ℕ} {w w' : WriterWorld} {p p' : ThreadPoint}

/-- The current thread runs its loop. -/
def Steady (w : WriterWorld) : Prop := ∃ p ∈ w.threads.getLast?, p.Steady

theorem Inv.getLast? (H : w.Inv C n p) : w.threads.getLast? = some p := by
  simp [H.threads]

theorem Inv.steady_iff (H : w.Inv C n p) : w.Steady ↔ p.Steady := by
  simp [Steady, H.getLast?]

/-- An attempt can only end with `revision`. -/
structure Assured (id revision : ℕ) (w : WriterWorld) : Prop where
  steady : ¬ w.Completed id → w.Steady
  executed : ∀ x ∈ w.executed, x.attempt = id → x.result = .ok revision
  completed : ∀ result, (id, result) ∈ w.completed → result = .ok revision

theorem Turn.steady (T : Turn C n .none faults w p w' p') (H : w.Inv C n p) (hid : id < w.receipts.length)
    (hc : ¬ w.Completed id) (hp : p.Steady) : p'.Steady := by
  cases T with
  | unwind _ _ hf => exact absurd rfl hf
  | leave hq =>
    have hmem := H.pending hid hc
    simp [H.fits.1, hq, ThreadPoint.hands] at hmem
  | @drop _ _ resume =>
    cases resume with
    | next => trivial
    | fail | settle => exact hp
  | wait | claim | announce | execute | publish | vacate | next => trivial
  | fail | settle | take | complete | finish | rest => exact hp.elim

theorem mem_completed_complete {k : ℕ} {result : EmbeddedResult ℕ} (h : x ∈ (w.complete k result).completed) :
    x ∈ w.completed ∨ x = (k, result) := by
  simp only [WriterWorld.complete] at h
  split at h
  · exact .inl h
  · rcases mem_append.1 h with h | h
    · exact .inl h
    · exact .inr (mem_singleton.1 h)

/-- A step without faults keeps the assurance when the write of the attempt would succeed. -/
theorem Turn.assured (T : Turn C n .none .none w p w' p') (H : w.Inv C n p)
    (H' : (w'.setThread n p').Inv C n p') (hid : id < w.receipts.length) (A : w.Assured id revision)
    (hw : ∀ receipt, w.receipts[id]? = some receipt →
      (C.write w.journal receipt.request .none).2 = .ok revision) :
    (w'.setThread n p').Assured id revision := by
  have hsteady : ¬ w.Completed id → p.Steady := fun h => H.steady_iff.1 (A.steady h)
  refine ⟨fun hc => ?_, fun x hx => ?_, fun result hx => ?_⟩
  · rw [H'.steady_iff]
    have hc₀ : ¬ w.Completed id := fun h => hc ((T.grows.completed.map Prod.fst).subset h)
    exact T.steady H hid hc₀ (hsteady hc₀)
  · have hx : x ∈ w'.executed := hx
    cases T with
    | execute hr =>
      rcases mem_append.1 hx with hx | hx
      · exact A.executed x hx
      · cases mem_singleton.1 hx
        rintro rfl
        exact hw _ hr
    | _ => exact A.executed x hx
  · have hx : (id, result) ∈ w'.completed := hx
    by_cases hc : w.Completed id
    · -- an outcome is not replaced
      obtain ⟨⟨_, result₀⟩, hx₀, rfl⟩ := mem_map.1 hc
      have heq := inj_on_of_nodup_map H'.outcomes.nodup hx (T.grows.completed.subset hx₀) rfl
      cases heq
      exact A.completed result hx₀
    · cases T with
      | publish =>
        rcases mem_completed_complete hx with hx | hx
        · exact A.completed result hx
        · cases hx
          exact A.executed _ (H.ordered.written _ _ rfl) rfl
      | complete => exact (hsteady hc).elim
      | _ => exact A.completed result hx

theorem Quiet.assured (Q : Quiet w w') (A : w.Assured id revision)
    (hs : w.Steady → w'.Steady) : w'.Assured id revision where
  steady h := hs (A.steady (by rwa [Completed, Q.logs.2] at h))
  executed := by
    rw [Q.logs.1]
    exact A.executed
  completed := by
    rw [Q.logs.2]
    exact A.completed

/-- A call without faults keeps the assurance when the write of the attempt would succeed. -/
theorem Assured.perform (H : w.Inv C n p) (hid : id < w.receipts.length) (A : w.Assured id revision)
    (hw : ∀ receipt, w.receipts[id]? = some receipt →
      (C.write w.journal receipt.request .none).2 = .ok revision)
    (hcalm : ∀ i fault faults, call = .thread i fault faults → fault = .none ∧ faults = .none) :
    (C.perform w call).Assured id revision := by
  rcases H.perform call with ⟨-, fault, faults, w', p', rfl, T, he, H'⟩ | ⟨-, H', Q⟩ | ⟨rfl, H', Q⟩
  · obtain ⟨rfl, rfl⟩ := hcalm _ _ _ rfl
    rw [he]
    exact T.assured H H' hid A hw
  · refine Q.assured A fun h => ?_
    rw [H'.steady_iff, ← H.steady_iff]
    exact h
  · exact Q.assured A fun _ => H'.steady_iff.2 trivial

end WriterWorld

/-! ## The retried candidate -/

open WriterWorld OperationJournal

namespace Operation
variable {O : Operation} {K : Allowance} {w v : OperationWorld} {c d : PendingCheckpoint} {σ : Slot}
  {id : ℕ} {a : List (ℕ × OperationSnapshot)}

/-- The call brings no fault and neither attests nor forgets the operation's record. -/
def Calm (O : Operation) : WriterCall → Prop
  | .thread _ fault faults => fault = .none ∧ faults = .none
  | .journal call => call.Faultless ∧ call.attests O.key = false ∧ call.forgets O.key = false
  | _ => True

/-- The candidate waits for an attempt that can only end with the revision already committed. -/
structure Retried (O : Operation) (a : List (ℕ × OperationSnapshot)) (σ : Slot)
    (c : PendingCheckpoint) (id : ℕ) (w : OperationWorld) : Prop where
  slot : ∃ d, w.slot σ = some d ∧ Continues c d ∧
    (d.attempt = .submitted id ∨ ∃ e, d.attempt = .unobservable id e)
  acknowledged : w.acknowledged = a
  sound : O.center.journal.Sound w.writer.journal.table
  ready : Ready w.writer.journal
  stored : O.stored w = some ⟨O.runtimeId, a.length + 1, c.snapshot, none⟩
  assured : w.writer.Assured id (a.length + 1)

theorem Protocol.revision_ne_zero (P : Protocol O w) : w.revision ≠ some 0 := by
  intro h
  rw [P.revised.revision, ← getLast?_map, P.revised.revisions] at h
  have := mem_of_getLast? h
  rw [mem_range'_1] at this
  omega

theorem Retried.receipt? (hd : d.attempt = .submitted id ∨ ∃ e, d.attempt = .unobservable id e) :
    d.attempt.receipt? = some id := by
  rcases hd with h | ⟨e, h⟩ <;> rw [h] <;> rfl

/-- The retry finds its record. -/
theorem Retried.write (P : Protocol O w) (C : Contents O w) (R : Retried O a σ c id w)
    (h : w.slot σ = some d) (hd : Continues c d) :
    O.center.write w.writer.journal (O.request w d.snapshot) .none =
      (w.writer.journal, .ok (a.length + 1)) := by
  have hkey : (O.runtimeId, d.snapshot.operationId) = O.key := request_key P C h
  rw [hd.snapshot] at hkey
  obtain ⟨-, hretry⟩ := writeCheckpoint_retry (r := ⟨O.runtimeId, a.length + 1, c.snapshot, none⟩)
    R.sound P.revision_ne_zero (hkey ▸ R.stored) rfl (by rw [P.revised.revision_getD, R.acknowledged])
  simp only [WriterCenter.write, request, hd.snapshot, hretry R.ready.1 R.ready.2]
  rfl

theorem Retried.charge (P : Protocol O w) (h : w.slot σ = some d)
    (hd : d.attempt = .submitted id ∨ ∃ e, d.attempt = .unobservable id e) :
    ∃ x, w.writer.charges[id]? = some x ∧ x.1 = O.request w d.snapshot :=
  (P.held σ d h).receipt id (Retried.receipt? hd)

/-- What a calm call of another user leaves of the journal. -/
theorem Retried.journal (P : Protocol O w) (C : Contents O w) (R : Retried O a σ c id w)
    (hf : O.foreign w.writer call) (hc : O.Calm call) : let t := (O.center.perform w.writer call).journal
    O.center.journal.Sound t.table ∧ Ready t ∧
      O.center.journal.record t.table O.key = O.stored w := by
  intro t
  obtain ⟨n, p, W⟩ := P.writer
  obtain ⟨d, h, hcont, hd⟩ := R.slot
  cases W.seen call with
  | none hj | submit _ hj =>
    have ht : t = w.writer.journal := hj
    rw [ht]
    exact ⟨R.sound, R.ready, rfl⟩
  | @journal journalCall hcall hj =>
    subst hcall
    have ht : t = (O.center.journal.perform w.writer.journal journalCall).1 := hj
    obtain ⟨hfault, hattest, hforget⟩ := hc
    rw [ht]
    refine ⟨(perform_effect R.sound journalCall).1.sound R.sound, perform_ready hfault R.ready, ?_⟩
    rcases perform_record R.sound (foreign_write hf) with h | ⟨h, -⟩ | ⟨h, -⟩
    · exact h
    · rw [hattest] at h
      cases h
    · rw [hforget] at h
      cases h
  | @execute i id' x fault faults hcall hx hn hj he =>
    subst hcall
    obtain ⟨rfl, rfl⟩ := hc
    have ht : t = (O.center.write w.writer.journal x.1 .none).1 := hj
    rw [ht]
    by_cases hk : x.1.key = O.key
    · obtain ⟨τ, d', h', hid'⟩ := (P.flight id' x hx hk).resolve_left hn
      obtain ⟨-, rfl⟩ := P.slot_unique h h'
      obtain ⟨y, hy, hreq⟩ := (P.held τ d' h').receipt id' hid'
      cases hy.symm.trans hx
      rw [hreq, R.write P C h hcont]
      exact ⟨R.sound, R.ready, rfl⟩
    · obtain ⟨htable, -⟩ := writeCheckpoint_effect R.sound x.1.runtimeId x.1.expectedRevision
        x.1.snapshot x.1.reconcile .none
      refine ⟨?_, ?_, ?_⟩
      · rcases htable with ht | hput
        · exact (congrArg O.center.journal.Sound ht).mpr R.sound
        · exact hput.sound R.sound
      · exact perform_ready (a := .writeCheckpoint x.1.runtimeId x.1.expectedRevision
          x.1.snapshot x.1.reconcile .none) rfl R.ready
      · rcases htable with ht | hput
        · exact congrArg (O.center.journal.record · O.key) ht
        · exact hput.record_ne (Ne.symm hk)

theorem Retried.writerMove (P : Protocol O w) (C : Contents O w) (R : Retried O a σ c id w)
    (hf : O.foreign w.writer call) (hc : O.Calm call) :
    Retried O a σ c id { w with writer := O.center.perform w.writer call } := by
  obtain ⟨hsound, hready, hstored⟩ := R.journal P C hf hc
  refine ⟨R.slot, R.acknowledged, hsound, hready, hstored.trans R.stored, ?_⟩
  obtain ⟨n, p, W⟩ := P.writer
  obtain ⟨d, h, hcont, hd⟩ := R.slot
  obtain ⟨x, hx, hreq⟩ := Retried.charge P h hd
  have hid : id < w.writer.receipts.length := by
    rw [← length_charges]
    exact (List.getElem?_eq_some_iff.1 hx).1
  refine R.assured.perform W hid (fun receipt hr => ?_) fun i fault faults hcall => ?_
  · rw [WriterWorld.charges, getElem?_map, hr] at hx
    cases hx
    have hreq : receipt.request = O.request w d.snapshot := hreq
    rw [hreq, R.write P C h hcont]
  · subst hcall
    exact hc

theorem Retried.keep (R : Retried O a σ c id w) (hw : v.writer = w.writer)
    (ha : v.acknowledged = w.acknowledged) (h : v.slot σ = some d) (hcont : Continues c d)
    (hd : d.attempt = .submitted id ∨ ∃ e, d.attempt = .unobservable id e) :
    Retried O a σ c id v := by
  refine ⟨⟨d, h, hcont, hd⟩, ha.trans R.acknowledged, hw ▸ R.sound, hw ▸ R.ready, ?_, hw ▸ R.assured⟩
  rw [Operation.stored, hw]
  exact R.stored

theorem Retried.progress (P : Protocol O w) (R : Retried O a σ c id w) (h : w.slot σ = some d)
    (hcont : Continues c d) (hd : d.attempt = .submitted id ∨ ∃ e, d.attempt = .unobservable id e)
    (hp : Progress O K w d v d') : Retried O a σ c id (v.setSlot σ (some d')) ∨
      (v.setSlot σ (some d')).acknowledged[a.length]? = some (a.length + 1, c.snapshot) := by
  have hcont' := hcont.trans hp.continues
  have hslot := slot_setSlot v σ (some d')
  cases hp with
  | permit =>
    refine .inl (R.keep rfl rfl hslot hcont' ?_)
    dsimp only
    rcases hd with hd | ⟨e, hd⟩ <;> simp [hd, Attempt.isFailed]
  | submit _ hc | settle hc => rcases hd with hd | ⟨e, hd⟩ <;> cases hd.symm.trans hc
  | lose hc =>
    refine .inl (R.keep rfl rfl hslot hcont' ?_)
    rcases hd with hd | ⟨e, hd⟩
    · cases hd.symm.trans hc
      exact .inr ⟨_, rfl⟩
    · cases hd.symm.trans hc
  | @acknowledge id' next receipt hc hr hs =>
    right
    obtain ⟨hreq, -⟩ := P.completed h hc hr hs
    obtain ⟨n, p, W⟩ := P.writer
    obtain ⟨-, hnext⟩ := W.acknowledged hr hs
    rw [hreq, request, P.revised.revision_getD, R.acknowledged] at hnext
    change (w.acknowledged ++ [(next, d.snapshot)])[a.length]? = _
    rw [R.acknowledged, getElem?_concat_length, hnext, hcont.snapshot]
  | @fail id' receipt error hc hr hs =>
    -- the attempt could only succeed
    rcases hd with hd | ⟨e, hd⟩
    · cases hd.symm.trans hc
      obtain ⟨n, p, W⟩ := P.writer
      obtain ⟨result, hmem, hs'⟩ := W.outcomes.of_completed hr (hs ▸ ofResult_phase _)
      have := JournalWriteSnapshot.ofResult_inj (hs.symm.trans hs')
      rw [R.assured.completed result hmem] at this
      cases this
    · cases hd.symm.trans hc
  | report | request => exact .inl (R.keep rfl rfl hslot hcont' hd)

/-- The candidate stays retried until it is acknowledged with the committed revision. -/
theorem Retried.move (P : Protocol O w) (C : Contents O w) (R : Retried O a σ c id w)
    (hK : ∀ call, K.writer call → O.Calm call) (m : Move O K w v) :
    Retried O a σ c id v ∨ v.acknowledged[a.length]? = some (a.length + 1, c.snapshot) := by
  obtain ⟨d, h, hcont, hd⟩ := R.slot
  have hn : d.attempt ≠ .acknowledged := by
    rcases hd with hd | ⟨e, hd⟩ <;> rw [hd] <;> nofun
  rcases P.slot_kept h hn m with ⟨h', -, ha⟩ | ⟨u, d', hp, rfl⟩
  · cases m with
    | writer hf hc => exact .inl (R.writerMove P C hf (hK _ hc))
    | progress h'' hp =>
      obtain ⟨rfl, rfl⟩ := P.slot_unique h h''
      exact R.progress P h hcont hd hp
    | _ => exact .inl (R.keep rfl ha h' hcont hd)
  · exact R.progress P h hcont hd hp

theorem Retried.moves (I : Inv O w) (R : Retried O a σ c id w)
    (hK : ∀ call, K.writer call → O.Calm call) (m : Moves O K w v) :
    Retried O a σ c id v ∨ v.acknowledged[a.length]? = some (a.length + 1, c.snapshot) := by
  induction m with
  | refl => exact .inl R
  | tail ms m ih =>
    have J := I.moves ms
    rcases ih with R | h
    · exact R.move J.protocol J.contents hK m
    · exact .inr (getElem?_prefix_some m.acknowledged_prefix h)

/-! ## Driving the retry -/

theorem drive_retry (h : w.slot σ = some c) (hf : c.attempt.isFailed)
    (hid : (O.center.submitRequest w.writer (O.request w c.snapshot) false).2 = .ok id) :
    let x := O.drive w σ c true ⟨false, false⟩
    x.2 = .ok false ∧
      x.1.writer = (O.center.submitRequest w.writer (O.request w c.snapshot) false).1 ∧
      x.1.acknowledged = w.acknowledged ∧
      x.1.slot σ = some { c with retry := .retrying, attempt := .submitted id } := by
  obtain ⟨W, hW, receipt, hr, hq⟩ : ∃ W, O.center.submitRequest w.writer (O.request w c.snapshot) false =
      (W, .ok id) ∧ ∃ receipt, W.receipts[id]? = some receipt ∧ receipt.snapshot.phase = .queued := by
    rcases submitRequest_result (C := O.center) w.writer (O.request w c.snapshot) false
      with ⟨e, he⟩ | ⟨bytes, hb⟩
    · rw [he] at hid
      cases hid
    · rw [hb] at hid ⊢
      cases hid
      exact ⟨_, rfl, _, getElem?_concat_length .., rfl⟩
  rw [hW]
  unfold request at hW
  cases σ <;>
    simp [drive, permitRetry, hf, held, slot, setSlot, submitNew, request,
      hW, observeAttempt, hr, hq, recordResult]

/-- Observing a successful receipt acknowledges its candidate. -/
theorem drive_acknowledged (P : Protocol O w) (h : w.slot σ = some d) (hd : d.attempt = .submitted id)
    (hr : w.writer.receipts[id]? = some receipt) (hs : receipt.snapshot = .ofResult (.ok n))
    (retry queuePoisoned : Bool) : (O.drive w σ d retry ⟨queuePoisoned, false⟩).2 = .ok true ∧
      (O.drive w σ d retry ⟨queuePoisoned, false⟩).1.acknowledged =
        w.acknowledged ++ [(n, d.snapshot)] := by
  obtain ⟨hreq, -⟩ := P.completed h hd hr hs
  have hrev : receipt.request.expectedRevision = w.revision := by rw [hreq]; rfl
  cases σ <;> cases hp : (retry || decide (d.retry = .requested)) <;>
    simp [drive, permitRetry, hd, hp, held, slot, setSlot, submitNew,
      observeAttempt, hr, hs, hrev, Operation.acknowledge, replaceAttempt, recordResult, Attempt.isFailed,
      JournalWriteSnapshot.ofResult, Embedded.acknowledged]

/-! ## The journal along a run -/

/-- The database is sound, and only an unproven transaction detaches it. -/
def Opened (O : Operation) (w : OperationWorld) : Prop :=
  O.center.journal.Sound w.writer.journal.table ∧ Attached w.writer.journal

theorem Opened.seen (hs : Seen O.center W call W')
    (h : O.center.journal.Sound W.journal.table ∧ Attached W.journal) :
    O.center.journal.Sound W'.journal.table ∧ Attached W'.journal := by
  have step : ∀ call : JournalCall,
      O.center.journal.Sound (O.center.journal.perform W.journal call).1.table ∧
        Attached (O.center.journal.perform W.journal call).1 := fun call =>
    ⟨(perform_effect h.1 call).1.sound h.1, perform_attached h.2 call⟩
  cases hs with
  | none hj | submit _ hj => rwa [hj]
  | journal _ hj =>
    rw [hj]
    exact step _
  | @execute i id x fault faults hcall hx hn hj =>
    rw [hj]
    exact step (.writeCheckpoint x.1.runtimeId x.1.expectedRevision x.1.snapshot x.1.reconcile faults)

theorem Opened.move (P : Protocol O w) (h : Opened O w) (m : Move O K w v) : Opened O v := by
  obtain ⟨n, p, W⟩ := P.writer
  cases m with
  | @writer call => exact Opened.seen (W.seen call) h
  | progress _ hp =>
    cases hp with
    | submit queuePoisoned => exact Opened.seen (.submitRequest w.writer _ queuePoisoned) h
    | acknowledge | fail => exact Opened.seen (.dropReceipt w.writer _) h
    | _ => exact h
  | _ => exact h

theorem Opened.moves (P : Protocol O w) (h : Opened O w) (m : Moves O K w v) : Opened O v := by
  induction m with
  | refl => exact h
  | tail ms m ih => exact ih.move (P.moves ms) m

theorem Attached.run (J : OperationJournal) (calls : List JournalCall) : Attached (J.run calls) := by
  have from_ : ∀ s, Attached s → Attached (J.runFrom s calls) := by
    induction calls with
    | nil => exact fun s h => h
    | cons call calls ih => exact fun s h => ih _ (perform_attached h call)
  exact from_ _ fun _ => rfl

theorem Opened.run (hq : O.backend = .queued) (earlier : List JournalCall) (calls : List OperationCall) :
    Opened O (O.run earlier calls) := by
  have I := Inv.start O earlier
  exact Opened.moves I.protocol ⟨run_sound earlier, Attached.run _ earlier⟩ (I.run_moves hq calls)

/-! ## Recovery and retry -/

def retryCall : Slot → OperationCall
  | .transition => .retryAdvance ⟨false, false⟩
  | .completion => .pollCompletionCheckpoint true ⟨false, false⟩

def recoverCall : OperationCall := .writer (.journal (.recoverStorage .none))

theorem perform_retryCall (hq : O.backend = .queued) (P : Protocol O w) (C : Contents O w)
    (h : w.slot σ = some c) (hg : σ = .transition → w.gate = none) (hf : c.attempt.isFailed)
    (hid : (O.center.submitRequest w.writer (O.request w c.snapshot) false).2 = .ok id) :
    let v := O.perform w (retryCall σ)
    v.writer = (O.center.submitRequest w.writer (O.request w c.snapshot) false).1 ∧
      v.acknowledged = w.acknowledged ∧
      v.slot σ = some { c with retry := .retrying, attempt := .submitted id } := by
  obtain ⟨hres, hdrive⟩ := drive_retry h hf hid
  cases σ with
  | transition =>
    have ht : w.transition = some c := h
    have hd : O.driveTransition w c true ⟨false, false⟩ finishAdvance =
        ((O.drive w .transition c true ⟨false, false⟩).1, .ok false) := by
      rw [driveTransition, ← hres]
      split
      · next heq =>
        rw [heq] at hres
        cases hres
      · next heq => rw [heq]
    simp only [retryCall, Operation.perform, retryAdvance, hg rfl, ht, driveAdvance, hd]
    simpa using hdrive
  | completion =>
    have hc : w.completion = some c := h
    have hp := P.completion c hc
    have hphase := (C.pending c.snapshot hp).cleaning
    have hterm : checkTerminal w = .ok c.snapshot := by
      simp [checkTerminal, hphase, hp, refuseIf, Except.ok_bind]
    simp only [retryCall, Operation.perform, driveCompletionCheckpoint, hterm, hq, hc]
    exact hdrive

/-- After recovery the retry waits for an attempt that can only succeed. -/
theorem Inv.retried (hq : O.backend = .queued) (I : Inv O w) (S : Opened O w) (h : w.slot σ = some c)
    (hf : c.attempt.isFailed) (hg : σ = .transition → w.gate = none)
    (hstored : O.stored w = some (O.next w c)) (hsteady : w.writer.Steady)
    (hid : (O.center.submitRequest (O.perform w recoverCall).writer (O.request w c.snapshot) false).2 =
      .ok id) :
    Retried O w.acknowledged σ c id (O.runFrom w [recoverCall, retryCall σ]) ∧
      (O.runFrom w [recoverCall, retryCall σ]).writer.threads = w.writer.threads := by
  have I' : Inv O (O.perform w recoverCall) := I.runFrom hq [recoverCall]
  obtain ⟨hready, htable⟩ := recoverStorage_ready S.1 S.2
  have hj : (O.perform w recoverCall).writer.journal =
    (O.center.journal.recoverStorage w.writer.journal .none).1 := rfl
  obtain ⟨hwriter, hack, hslot⟩ := perform_retryCall hq I'.protocol I'.contents (σ := σ) (c := c)
    (by cases σ <;> exact h) hg hf hid
  obtain ⟨n, p, W⟩ := I'.protocol.writer
  rcases submitRequest_result (C := O.center) (O.perform w recoverCall).writer
    (O.request w c.snapshot) false with ⟨e, he⟩ | ⟨bytes, hb⟩
  · rw [he] at hid
    cases hid
  rw [hb] at hid
  cases hid
  have hb : (O.runFrom w [recoverCall, retryCall σ]).writer = _ :=
    hwriter.trans (congrArg Prod.fst hb)
  refine ⟨⟨⟨_, hslot, ⟨rfl, rfl, rfl⟩, .inl rfl⟩, hack, ?_, ?_, ?_, ?_⟩, ?_⟩
  · rw [hb]
    exact htable.symm ▸ S.1
  · rw [hb]
    exact hready
  · rw [Operation.stored, hb]
    change O.center.journal.record (O.perform w recoverCall).writer.journal.table O.key = _
    rw [hj, htable]
    refine hstored.trans ?_
    rw [next, candidate, I.protocol.revised.revision_getD]
  · rw [hb]
    refine ⟨fun _ => hsteady, fun x hx hid => ?_, fun result hx => ?_⟩
    · exact absurd hid (Nat.ne_of_lt (W.executed_lt hx))
    · exact absurd (W.outcomes.lt (mem_map_of_mem hx)) (Nat.lt_irrefl _)
  · rw [hb]
    rfl

/-! ## Steps of the writer in a run -/

theorem Moves.writer_calls (hK : ∀ call, ¬ K.writer call) (n : ℕ) (m : Moves O K w v) :
    ∃ calls : List WriterCall, v.writer = O.center.runFrom w.writer calls ∧
      calls.countP (steps n) = 0 := by
  induction m with
  | refl => exact ⟨[], rfl, rfl⟩
  | @tail b u _ m ih =>
    obtain ⟨calls, hrun, hcount⟩ := ih
    have one : ∀ call, u.writer = O.center.perform b.writer call → steps n call = false →
        ∃ calls' : List WriterCall, u.writer = O.center.runFrom w.writer calls' ∧
          calls'.countP (steps n) = 0 := by
      intro call hu hs
      refine ⟨calls ++ [call], ?_, by simp [hcount, hs]⟩
      rw [hu, hrun]
      simp [WriterCenter.runFrom]
    cases m with
    | writer _ hc => exact absurd hc (hK _)
    | progress _ hp =>
      cases hp with
      | submit queuePoisoned => exact one (.submitRequest _ queuePoisoned) rfl rfl
      | acknowledge | fail => exact one (.dropReceipt _) rfl rfl
      | _ => exact ⟨calls, hrun, hcount⟩
    | _ => exact ⟨calls, hrun, hcount⟩

def threadSteps (n : ℕ) : OperationCall → Bool
  | .writer call => steps n call
  | _ => false

theorem Inv.writer_calls (hq : O.backend = .queued) (I : Inv O w) (n : ℕ)
    (calls : List OperationCall) : ∃ steps' : List WriterCall,
      (O.runFrom w calls).writer = O.center.runFrom w.writer steps' ∧
        steps'.countP (steps n) = calls.countP (threadSteps n) := by
  induction calls generalizing w with
  | nil => exact ⟨[], rfl, rfl⟩
  | cons call calls ih =>
    have I' : Inv O (O.perform w call) := I.runFrom hq [call]
    obtain ⟨rest, hrest, hcount⟩ := ih I'
    obtain ⟨first, hfirst, hone⟩ : ∃ first : List WriterCall,
        (O.perform w call).writer = O.center.runFrom w.writer first ∧
          first.countP (steps n) = [call].countP (threadSteps n) := by
      by_cases hc : ∃ c, call = .writer c
      · obtain ⟨c, rfl⟩ := hc
        simp only [Operation.perform]
        split
        · exact ⟨[c], rfl, rfl⟩
        · next hf =>
          refine ⟨[], rfl, ?_⟩
          have : steps n c = false := by
            cases c with
            | thread => exact absurd rfl hf
            | _ => rfl
          simp [threadSteps, this]
      · have m : Moves O ⟨fun _ _ => True, True, fun _ => False⟩ w (O.perform w call) :=
          .perform hq I.protocol I.closed call (fun _ _ _ _ _ => trivial) (fun _ => trivial)
            fun c h => hc ⟨c, h⟩
        obtain ⟨first, hfirst, hone⟩ := m.writer_calls (fun _ h => h) n
        refine ⟨first, hfirst, hone.trans ?_⟩
        have : threadSteps n call = false := by
          cases call with
          | writer c => exact absurd ⟨c, rfl⟩ hc
          | _ => rfl
        simp [this]
    refine ⟨first ++ rest, ?_, ?_⟩
    · change (O.runFrom (O.perform w call) calls).writer = _
      rw [hrest, hfirst, WriterCenter.runFrom, WriterCenter.runFrom, WriterCenter.runFrom,
        foldl_append]
    · rw [countP_append, hcount, hone, countP_cons, countP_cons]
      simp [Nat.add_comm]

/-- The retry of a committed candidate ends in the acknowledgement of the committed revision: along
every further run without new faults, once the thread has had its steps, the candidate is acknowledged
or the next observation of its receipt acknowledges it. -/
theorem Inv.recovered (hq : O.backend = .queued) (I : Inv O w) (S : Opened O w)
    (h : w.slot σ = some c) (hf : c.attempt.isFailed) (hg : σ = .transition → w.gate = none)
    (hstored : O.stored w = some (O.next w c)) (hsteady : w.writer.Steady)
    (hid : (O.center.submitRequest (O.perform w recoverCall).writer (O.request w c.snapshot) false).2 =
      .ok id) :
    ∃ bound, ∀ later : List OperationCall, (∀ call, .writer call ∈ later → O.Calm call) →
      bound < later.countP (threadSteps (w.writer.threads.length - 1)) →
      let u := O.runFrom w (recoverCall :: retryCall σ :: later)
      u.acknowledged[w.acknowledged.length]? = some ((O.next w c).revision, c.snapshot) ∨
      u.acknowledged = w.acknowledged ∧ ∃ d, u.slot σ = some d ∧ Continues c d ∧
        ((∃ e, d.attempt = .unobservable id e) ∨ ∀ retry queuePoisoned,
          (O.drive u σ d retry ⟨queuePoisoned, false⟩).2 = .ok true ∧
          (O.drive u σ d retry ⟨queuePoisoned, false⟩).1.acknowledged =
            w.acknowledged ++ [((O.next w c).revision, c.snapshot)]) := by
  obtain ⟨R, hthreads⟩ := I.retried hq S h hf hg hstored hsteady hid
  have hrev : (O.next w c).revision = w.acknowledged.length + 1 := by
    rw [next, candidate, I.protocol.revised.revision_getD]
  rw [hrev]
  have Iv : Inv O (O.runFrom w [recoverCall, retryCall σ]) := I.runFrom hq [recoverCall, retryCall σ]
  generalize hv : O.runFrom w [recoverCall, retryCall σ] = v at R Iv hthreads
  obtain ⟨n, p, W⟩ := Iv.protocol.writer
  have hn : w.writer.threads.length - 1 = n := by
    rw [← hthreads, W.threads]
    simp
  obtain ⟨d, hd, -, hattempt⟩ := R.slot
  obtain ⟨x, hx, -⟩ := Retried.charge Iv.protocol hd hattempt
  have hlt : id < v.writer.receipts.length := by
    rw [← length_charges]
    exact (List.getElem?_eq_some_iff.1 hx).1
  refine ⟨countdown v.writer.state id p, fun later hcalm hbound => ?_⟩
  have hu : O.runFrom w (recoverCall :: retryCall σ :: later) = O.runFrom v later := by
    rw [← hv]
    rfl
  rw [hu]
  have Iu := Iv.runFrom hq later
  obtain ⟨calls, hcalls, hcount⟩ := Iv.writer_calls hq n later
  have hdone : (O.runFrom v later).writer.Completed id := by
    rw [hcalls]
    exact W.completed_within hlt calls (by rw [hcount, ← hn]; exact hbound)
  rcases R.moves Iv (fun _ h => h) (Iv.run_moves_among hq later hcalm) with R' | hack
  · refine .inr ⟨R'.acknowledged, ?_⟩
    obtain ⟨d', hd', hcont, hattempt'⟩ := R'.slot
    refine ⟨d', hd', hcont, ?_⟩
    rcases hattempt' with hs | hlost
    · right
      intro retry queuePoisoned
      obtain ⟨⟨_, result⟩, hmem, rfl⟩ := mem_map.1 hdone
      obtain ⟨n', p', W'⟩ := Iu.protocol.writer
      obtain ⟨receipt, hr, hsnap⟩ := W'.outcomes.published _ hmem
      rw [R'.assured.completed result hmem] at hsnap
      have := drive_acknowledged Iu.protocol hd' hs hr hsnap retry queuePoisoned
      rwa [R'.acknowledged, hcont.snapshot] at this
    · exact .inl hlost
  · exact .inl hack

/-! ## Candidates of a run -/

/-- A retry is granted only to a completed failure. -/
theorem Protocol.checkRetry_failed (P : Protocol O w) (h : O.checkRetry w = .ok (some c))
    (hr : c.retry = .waiting) : c.attempt.isFailed := by
  obtain ⟨ht, hf, hu⟩ := checkRetry_ok h
  rcases (P.held .transition c ht).waiting hf hr with h | ⟨id, e, he⟩
  · exact h
  · exact absurd he (hu id e)

theorem Protocol.in_flight (P : Protocol O w) (h : w.writer.receipts[id]? = some r)
    (h' : w.writer.receipts[id']? = some r') (hk : r.request.key = O.key) (hk' : r'.request.key = O.key)
    (hp : r.snapshot.phase ≠ .completed) (hp' : r'.snapshot.phase ≠ .completed) : id = id' := by
  obtain ⟨n, p, W⟩ := P.writer
  have charge : ∀ {i : ℕ} {x : ReceiptState}, w.writer.receipts[i]? = some x →
      w.writer.charges[i]? = some (x.request, x.bytes) := by
    intro i x hx
    rw [WriterWorld.charges, getElem?_map, hx]
    rfl
  have waits : ∀ {i : ℕ} {x : ReceiptState}, w.writer.receipts[i]? = some x → x.request.key = O.key →
      x.snapshot.phase ≠ .completed → ∃ σ c, w.slot σ = some c ∧ i ∈ c.attempt.receipt? := by
    intro i x hx hk hn
    refine (P.flight i _ (charge hx) hk).resolve_left fun hc => hn ?_
    exact (W.outcomes.phase_iff hx).2 hc
  obtain ⟨σ, c, hc, hid⟩ := waits h hk hp
  obtain ⟨τ, d, hd, hid'⟩ := waits h' hk' hp'
  obtain ⟨-, rfl⟩ := P.slot_unique hc hd
  exact Option.some.inj (hid.symm.trans hid')

/-- One outstanding candidate, unchanged until it is acknowledged, submitted again only on request,
acknowledged in order, and acknowledged with the committed revision when its confirmation was lost. -/
theorem run_candidates (O : Operation) (hq : O.backend = .queued) (earlier : List JournalCall)
    (calls : List OperationCall) :
    let w := O.run earlier calls
    (∀ (id id' : ℕ) (r r' : ReceiptState), w.writer.receipts[id]? = some r →
      w.writer.receipts[id']? = some r' → r.request.key = O.key → r'.request.key = O.key → r.snapshot.phase ≠ .completed →
      r'.snapshot.phase ≠ .completed → id = id') ∧
    (∀ σ c, w.slot σ = some c → c.attempt ≠ .acknowledged → ∀ more, Kept w σ c (O.runFrom w more)) ∧
    (∀ k, w.submitted k ≤ 1 + w.retried k) ∧
    (∀ call, retries call = false → (O.perform w call).retries = w.retries) ∧
    (∀ c, O.checkRetry w = .ok (some c) → c.retry = .waiting → c.attempt.isFailed) ∧
    (∀ σ c id e, w.slot σ = some c → c.attempt = .unobservable id e → ∀ more,
      (O.runFrom w more).submissions = w.submissions) ∧
    (w.acknowledged.map Prod.fst = range' 1 w.acknowledged.length ∧ w.disordered = false) ∧
    (∀ σ c id, w.slot σ = some c → c.attempt.isFailed → (σ = .transition → w.gate = none) →
      O.stored w = some (O.next w c) → w.writer.Steady →
      (O.center.submitRequest (O.perform w recoverCall).writer (O.request w c.snapshot) false).2 =
        .ok id →
      ∃ bound, ∀ later : List OperationCall, (∀ call, .writer call ∈ later → O.Calm call) →
        bound < later.countP (threadSteps (w.writer.threads.length - 1)) →
        let u := O.runFrom w (recoverCall :: retryCall σ :: later)
        u.acknowledged[w.acknowledged.length]? = some ((O.next w c).revision, c.snapshot) ∨
        u.acknowledged = w.acknowledged ∧ ∃ d, u.slot σ = some d ∧ Continues c d ∧
          ((∃ e, d.attempt = .unobservable id e) ∨ ∀ retry queuePoisoned,
            (O.drive u σ d retry ⟨queuePoisoned, false⟩).2 = .ok true ∧
            (O.drive u σ d retry ⟨queuePoisoned, false⟩).1.acknowledged =
              w.acknowledged ++ [((O.next w c).revision, c.snapshot)])) := by
  intro w
  have I : Inv O w := .run hq earlier calls
  have P := I.protocol
  refine ⟨fun id id' r r' h h' hk hk' hp hp' => P.in_flight h h' hk hk' hp hp',
    fun σ c h hn more => I.kept h hn (I.run_moves hq more), P.counted.le, fun call hc => ?_,
    fun c h hr => P.checkRetry_failed h hr, fun σ c id e h hu more => ?_,
    ⟨P.revised.revisions, P.ordered⟩, fun σ c id h hf hg hs hsteady hid => ?_⟩
  · have m : Moves O .observing w (O.perform w call) :=
      .perform hq P I.closed call (fun _ _ _ _ _ => trivial) (fun h => nomatch hc.symm.trans h)
        fun _ _ => trivial
    exact m.retries_observing
  · exact (I.unobservable h hu (I.run_moves hq more)).1
  · exact I.recovered hq (.run hq earlier calls) h hf hg hs hsteady hid

/-- The confirmation of the first phase was lost, and the owner has seen the failure. -/
def lostCalls : List OperationCall :=
  .advance .cleaning ⟨false, false⟩ .none :: turn ⟨none, none, true, .lost true⟩ ++
    [.resume ⟨false, false⟩]

/-- The candidate of that phase after the failure. -/
def lostCheckpoint : PendingCheckpoint :=
  ⟨0, none, some uncertain, .waiting, cleaningSnapshot, .failed uncertain⟩

theorem run_candidates_lost :
    let w := (plainOperation .queued).run [] lostCalls
    w.slot .transition = some lostCheckpoint ∧
    ∃ bound, ∀ later : List OperationCall,
      (∀ call, .writer call ∈ later → (plainOperation .queued).Calm call) →
      bound < later.countP (threadSteps 0) →
      let u := (plainOperation .queued).runFrom w (recoverCall :: retryCall .transition :: later)
      u.acknowledged[0]? = some (1, cleaningSnapshot) ∨
      u.acknowledged = [] ∧ ∃ d, u.slot .transition = some d ∧ Continues lostCheckpoint d ∧
        ((∃ e, d.attempt = .unobservable 1 e) ∨ ∀ retry queuePoisoned,
          ((plainOperation .queued).drive u .transition d retry ⟨queuePoisoned, false⟩).2 = .ok true ∧
          ((plainOperation .queued).drive u .transition d retry ⟨queuePoisoned, false⟩).1.acknowledged =
            [(1, cleaningSnapshot)]) := by
  intro w
  have hw : w.slot .transition = some lostCheckpoint := by decide +kernel
  refine ⟨hw, ?_⟩
  have hack : w.acknowledged = [] := by decide +kernel
  have hthreads : w.writer.threads = [.fetch] := by decide +kernel
  obtain ⟨-, -, -, -, -, -, -, h⟩ := run_candidates (plainOperation .queued) rfl [] lostCalls
  have hgate : w.gate = none := Option.isNone_iff_eq_none.1 (by decide +kernel)
  have := h .transition lostCheckpoint 1 hw rfl (fun _ => hgate) (by decide +kernel)
    ⟨.fetch, by rw [hthreads]; rfl, trivial⟩ (by decide +kernel)
  have hrev : ((plainOperation .queued).next w lostCheckpoint).revision = 1 := by decide +kernel
  rw [hack, hthreads, hrev] at this
  exact this

end Operation

end LuaSkills.Embedded
