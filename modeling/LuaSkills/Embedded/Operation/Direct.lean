import LuaSkills.Embedded.Operation.Recovery

/-!
# Lost confirmations over a direct journal

The direct backend retains no candidate: a repeated `advance` captures the phase again, with the
cancellation and the host evidence of the moment, and `retry_completion` refreshes the cancellation of
its terminal snapshot. The journal acknowledges only the record it already has. A retry after a lost
confirmation is therefore acknowledged exactly when nothing it captures has changed.
-/

namespace LuaSkills.Embedded

open WriterWorld OperationJournal

variable {phase : OperationPhase} {transaction : TransactionFaults}

namespace Operation
variable {O : Operation} {w v : OperationWorld} {s : OperationSnapshot}

/-- An operation over a direct journal retains nothing and finalizes nothing. -/
structure Direct (O : Operation) (w : OperationWorld) : Prop where
  transition : w.transition = none
  completion : w.completion = none
  gate : w.gate = none
  finalization : w.finalization = none
  revision : w.revision ≠ some 0
  writer : ∃ n p, w.writer.Inv O.center n p
  opened : Opened O w

theorem Direct.frame (D : Direct O w) (hw : v.writer = w.writer) (ht : v.transition = w.transition)
    (hc : v.completion = w.completion) (hg : v.gate = w.gate) (hf : v.finalization = w.finalization)
    (hr : v.revision = w.revision ∨ ∃ n, v.revision = some (n + 1)) : Direct O v where
  transition := ht.trans D.transition
  completion := hc.trans D.completion
  gate := hg.trans D.gate
  finalization := hf.trans D.finalization
  revision := by
    rcases hr with hr | ⟨n, hr⟩
    · exact hr ▸ D.revision
    · rw [hr]
      nofun
  writer := hw ▸ D.writer
  opened := by
    rw [Opened, hw]
    exact D.opened

theorem Direct.writerCall (D : Direct O w) (call : WriterCall) :
    Direct O { w with writer := O.center.perform w.writer call } := by
  obtain ⟨n, p, W⟩ := D.writer
  exact ⟨D.transition, D.completion, D.gate, D.finalization, D.revision, (W.call call).1,
    Opened.seen (W.seen call) D.opened⟩

theorem Direct.checkpoint (D : Direct O w) (snapshot : OperationSnapshot) (faults : TransactionFaults) :
    Direct O (O.checkpointDirect w snapshot faults).1 := by
  have D' := D.writerCall (.journal (.writeCheckpoint O.runtimeId w.revision snapshot true faults))
  obtain ⟨-, hok⟩ := writeCheckpoint_effect D.opened.1 O.runtimeId w.revision snapshot true faults
  simp only [checkpointDirect]
  split
  · exact D'
  · next record heq =>
    obtain ⟨rfl, -⟩ := hok record heq
    exact D'.frame rfl rfl rfl rfl rfl (.inr ⟨_, rfl⟩)

theorem Direct.setLedger (D : Direct O w) (x : EmbeddedResult LedgerState) :
    Direct O (setLedger w x) := by
  unfold Operation.setLedger
  split
  · exact D.frame rfl rfl rfl rfl rfl (.inl rfl)
  · exact D

theorem Direct.advance (D : Direct O w) (hd : O.backend = .direct) (phase : OperationPhase)
    (faults : DriveFaults) (transaction : TransactionFaults) :
    Direct O (O.advance w phase faults transaction).1 := by
  simp only [Operation.advance, hd]
  split
  · exact D
  · simp only [advanceDirect]
    split
    · exact D
    · next snapshot _ =>
      have D' := D.checkpoint snapshot transaction
      split
      · next heq =>
        rw [heq] at D'
        exact D'
      · next heq =>
        rw [heq] at D'
        exact D'.frame rfl rfl rfl rfl rfl (.inl rfl)

theorem Direct.retryCompletion (D : Direct O w) (hd : O.backend = .direct) (faults : DriveFaults)
    (transaction : TransactionFaults) : Direct O (O.retryCompletion w faults transaction).1 := by
  simp only [Operation.retryCompletion, hd, retryCompletionDirect]
  split
  · exact D
  · next snapshot _ =>
    have D' := Direct.checkpoint (w := { w with
        pendingCompletion := some { snapshot with cancellationRequested := w.cancelled } })
      (D.frame rfl rfl rfl rfl rfl (.inl rfl)) { snapshot with cancellationRequested := w.cancelled } transaction
    split
    · next heq =>
      rw [heq] at D'
      exact D'
    · next heq =>
      rw [heq] at D'
      exact D'.frame rfl rfl rfl rfl rfl (.inl rfl)

theorem Direct.perform (hd : O.backend = .direct) (D : Direct O w) (call : OperationCall) :
    Direct O (O.perform w call) := by
  cases call with
  | writer call =>
    simp only [Operation.perform]
    split
    · exact D.writerCall call
    · exact D
  | cancel =>
    simp only [Operation.perform, Operation.cancel]
    split
    · exact D
    · exact D.frame rfl rfl rfl rfl rfl (.inl rfl)
  | reserveEffect => exact D.setLedger _
  | bindRequest | beginEffect =>
    simp only [Operation.perform]
    split
    · exact D.setLedger _
    · exact D
  | observe =>
    simp only [Operation.perform]
    split
    · exact D.frame rfl rfl rfl rfl rfl (.inl rfl)
    · exact D
  | dropAttempt => exact D.frame rfl rfl rfl rfl rfl (.inl rfl)
  | checkpointStart =>
    simp only [Operation.perform, Operation.checkpointStart, hd]
    split <;> exact D
  | pollOutcome =>
    simp only [Operation.perform, Operation.pollOutcome, hd]
    split <;> exact D
  | advance phase faults transaction =>
    simp only [Operation.perform]
    split
    · exact D.advance hd phase faults transaction
    · exact D
  | pollAdvance =>
    simp only [Operation.perform, Operation.pollAdvance, hd]
    split <;> exact D
  | retryAdvance =>
    simp only [Operation.perform, Operation.retryAdvance, D.gate, D.transition]
    exact D
  | prepareFinalization export_ business =>
    have : ∃ e, O.checkFinalization w export_ = .error e := by
      cases h : O.checkFinalization w export_ with
      | error e => exact ⟨e, rfl⟩
      | ok x =>
        simp only [checkFinalization, Except.bind_eq_ok, refuseIf_eq_ok] at h
        obtain ⟨_, _, _, _, _, _, _, hb, _⟩ := h
        exact absurd hd hb
    obtain ⟨e, he⟩ := this
    simp only [Operation.perform, Operation.prepareFinalization, he]
    exact D
  | pollFinalization =>
    simp only [Operation.perform, Operation.pollFinalization, D.finalization]
    exact D
  | takeFinalizationControl =>
    simp only [Operation.perform, Operation.takeFinalizationControl]
    split
    · exact D
    · next ownership h => exact absurd (D.finalization.symm.trans (checkControl_ok h)) (by rintro ⟨⟩)
  | prepareFinalizationOutcome =>
    simp only [Operation.perform, Operation.prepareFinalizationOutcome]
    split
    · exact D
    · next ownership ledger records h =>
      exact absurd (D.finalization.symm.trans (checkOutcome_ok h).1) (by rintro ⟨⟩)
  | prepareCompletion =>
    simp only [Operation.perform, Operation.prepareCompletion]
    split
    · exact D
    · exact D.frame rfl rfl rfl rfl rfl (.inl rfl)
  | pollCompletionCheckpoint =>
    simp only [Operation.perform, Operation.driveCompletionCheckpoint, hd]
    split <;> exact D
  | publishCompletion =>
    simp only [Operation.perform, Operation.publishCompletion, hd, D.completion]
    exact D
  | retryCompletion faults transaction => exact D.retryCompletion hd faults transaction
  | pollCompletion retry faults =>
    have : ∃ e, O.driveCompletionCheckpoint w retry faults = (w, .error e) := by
      simp only [driveCompletionCheckpoint, hd]
      split
      · exact ⟨_, rfl⟩
      · exact ⟨_, rfl⟩
    obtain ⟨e, he⟩ := this
    simp only [Operation.perform, Operation.pollCompletion, hd, driveCompletion, he]
    exact D
  | requestCheckpointRetry =>
    simp only [Operation.perform, Operation.requestCheckpointRetry, checkRetry, hd, D.gate,
      D.transition]
    exact D
  | resume =>
    simp only [Operation.perform, Operation.resume, D.gate]
    exact D

theorem Direct.run (hd : O.backend = .direct) (earlier : List JournalCall)
    (calls : List OperationCall) : Direct O (O.run earlier calls) := by
  have from_ : ∀ w, Direct O w → Direct O (O.runFrom w calls) := by
    induction calls with
    | nil => exact fun w D => D
    | cons call calls ih => exact fun w D => ih _ (D.perform hd call)
  exact from_ _ ⟨rfl, rfl, rfl, rfl, nofun, ⟨0, .fetch, .new O.center _⟩, run_sound earlier,
    Attached.run _ earlier⟩

/-! ## Repeating a write -/

/-- The write of a snapshot whose predecessor's successor is already stored is acknowledged exactly
when it is that record. -/
theorem checkpointDirect_ok {t : OperationSnapshot} (D : Direct O w) (hready : Ready w.writer.journal)
    (hst : O.stored w = some (candidate O.runtimeId w.revision s)) (hid : t.operationId = s.operationId) :
    (O.checkpointDirect w t .none).2 = .ok () ↔ t = s := by
  obtain ⟨row, -, hstored⟩ := D.opened.1.record_stored hst
  have hop : s.operationId = O.id := hstored.operation
  have hkey : (O.runtimeId, s.operationId) = O.key := by rw [key, hop]
  constructor
  · intro h
    obtain ⟨hput, hok⟩ := writeCheckpoint_effect D.opened.1 O.runtimeId w.revision t true .none
    simp only [checkpointDirect] at h
    split at h
    · cases h
    · next record heq =>
      obtain ⟨rfl, hrec⟩ := hok record heq
      rw [hid, hkey] at hrec hput
      rcases hput with he | hput
      · rw [he] at hrec
        have := hrec.symm.trans hst
        simpa [candidate] using this
      · -- a second record would have to succeed the first one
        have hstep := hput.step
        have hst : O.center.journal.record w.writer.journal.table O.key = _ := hst
        rw [hst] at hstep
        have := hstep.revision
        simp [candidate] at this
  · rintro rfl
    obtain ⟨-, hretry⟩ := writeCheckpoint_retry (r := candidate O.runtimeId w.revision t) D.opened.1
      D.revision (hkey ▸ hst) rfl rfl
    have := hretry hready.1 hready.2
    simp only [candidate] at this
    simp only [checkpointDirect, this]

theorem checkpointDirect_acknowledged (D : Direct O w)
    (h : (O.checkpointDirect w s .none).2 = .ok ()) :
    (O.checkpointDirect w s .none).1.acknowledged =
      w.acknowledged ++ [(w.revision.getD 0 + 1, s)] := by
  obtain ⟨-, hok⟩ := writeCheckpoint_effect D.opened.1 O.runtimeId w.revision s true .none
  simp only [checkpointDirect] at h ⊢
  split at h
  · cases h
  · next record heq =>
    obtain ⟨rfl, -⟩ := hok record heq
    rfl

/-- A cancellation request or a change of the host evidence. -/
def gathers : OperationCall → Bool
  | .cancel | .reserveEffect _ _ _ _ _ | .bindRequest _ _ | .beginEffect _ | .observe _ _
  | .dropAttempt _ => true
  | _ => false

/-- Only the cancellation flag and the ledger differ. -/
structure Gathered (w v : OperationWorld) : Prop where
  writer : v.writer = w.writer
  snapshot : v.snapshot = w.snapshot
  revision : v.revision = w.revision
  pendingCompletion : v.pendingCompletion = w.pendingCompletion
  acknowledged : v.acknowledged = w.acknowledged
  gate : v.gate = w.gate

theorem Gathered.perform (h : gathers call) : Gathered w (O.perform w call) := by
  have refl : Gathered w w := ⟨rfl, rfl, rfl, rfl, rfl, rfl⟩
  have ledger : ∀ x, Gathered w (Operation.setLedger w x) := by
    intro x
    unfold Operation.setLedger
    split
    · exact ⟨rfl, rfl, rfl, rfl, rfl, rfl⟩
    · exact refl
  cases call with
  | cancel =>
    simp only [Operation.perform, Operation.cancel]
    split
    · exact refl
    · exact ⟨rfl, rfl, rfl, rfl, rfl, rfl⟩
  | reserveEffect => exact ledger _
  | bindRequest | beginEffect =>
    simp only [Operation.perform]
    split
    · exact ledger _
    · exact refl
  | observe =>
    simp only [Operation.perform]
    split
    · exact ⟨rfl, rfl, rfl, rfl, rfl, rfl⟩
    · exact refl
  | dropAttempt => exact ⟨rfl, rfl, rfl, rfl, rfl, rfl⟩
  | _ => cases h

theorem Gathered.runFrom {calls : List OperationCall} (h : ∀ call ∈ calls, gathers call) :
    Gathered w (O.runFrom w calls) := by
  induction calls generalizing w with
  | nil => exact ⟨rfl, rfl, rfl, rfl, rfl, rfl⟩
  | cons call calls ih =>
    have g := Gathered.perform (O := O) (w := w) (h call List.mem_cons_self)
    have g' := ih (w := O.perform w call) fun c hc => h c (List.mem_cons_of_mem _ hc)
    exact ⟨g'.writer.trans g.writer, g'.snapshot.trans g.snapshot, g'.revision.trans g.revision,
      g'.pendingCompletion.trans g.pendingCompletion, g'.acknowledged.trans g.acknowledged,
      g'.gate.trans g.gate⟩

/-! ## Failure, recovery and repetition -/

/-- A recovery that succeeds reopens the database with everything that was committed. -/
theorem recoverStorage_true {J : OperationJournal} (h : (J.recoverStorage t faults).2 = .ok true) :
    Ready (J.recoverStorage t faults).1 ∧ (J.recoverStorage t faults).1.table = t.table := by
  unfold OperationJournal.recoverStorage at h ⊢
  split at h
  · cases h
  · split at h
    · cases h
    · dsimp only at h ⊢
      split at h
      · cases h
      · cases h
      · cases h
      · exact ⟨⟨rfl, rfl⟩, rfl⟩

/-- The storage is recovered after the failure and what was gathered since. -/
def recovered (O : Operation) (w : OperationWorld) (between : List OperationCall)
    (faults : RecoveryFaults) : OperationWorld :=
  O.perform (O.runFrom w between) (.writer (.journal (.recoverStorage faults)))

section
variable {between : List OperationCall} {faults : RecoveryFaults}
  (hb : ∀ call ∈ between, gathers call)
  (hr : (O.center.journal.recoverStorage (O.runFrom w between).writer.journal faults).2 = .ok true)
include hb hr

/-- What recovery finds of a failed write: the record and the world around it. -/
theorem Direct.recovered (hd : O.backend = .direct) (D : Direct O w) :
    Direct O (O.recovered w between faults) ∧ Ready (O.recovered w between faults).writer.journal ∧
      O.stored (O.recovered w between faults) = O.stored w ∧
      (O.recovered w between faults).snapshot = w.snapshot ∧
      (O.recovered w between faults).revision = w.revision ∧
      (O.recovered w between faults).pendingCompletion = w.pendingCompletion ∧
      (O.recovered w between faults).acknowledged = w.acknowledged := by
  have g := Gathered.runFrom (O := O) (w := w) hb
  have D' : Direct O (O.runFrom w between) := by
    have from_ : ∀ u, Direct O u → Direct O (O.runFrom u between) := by
      clear hb hr g
      induction between with
      | nil => exact fun u D => D
      | cons call calls ih => exact fun u D => ih _ (D.perform hd call)
    exact from_ w D
  obtain ⟨hready, htable⟩ := recoverStorage_true hr
  refine ⟨D'.perform hd _, hready, ?_, g.snapshot, g.revision, g.pendingCompletion, g.acknowledged⟩
  change O.center.journal.record
    (O.center.journal.recoverStorage (O.runFrom w between).writer.journal faults).1.table O.key = _
  rw [htable, g.writer]
  rfl

end

/-- A write is acknowledged, or changes nothing but the journal. -/
theorem checkpointDirect_error (h : (O.checkpointDirect w s faults).2 = .error e) :
    ∃ journal, O.checkpointDirect w s faults = ({ w with writer.journal := journal }, .error e) := by
  unfold checkpointDirect at h ⊢
  cases hx : O.center.journal.writeCheckpoint w.writer.journal O.runtimeId w.revision s true faults with
  | mk journal record =>
    rw [hx] at h
    cases record with
    | ok _ => cases h
    | error e' =>
      cases h
      exact ⟨journal, rfl⟩

theorem advanceDirect_eq (hs : advanceCandidate w phase = .ok s) :
    O.advanceDirect w phase faults = match O.checkpointDirect w s faults with
      | (w, .error e) => (w, .error e)
      | (w, .ok ()) => (w.publish s, .ok true) := by
  rcases h : O.checkpointDirect w s faults with ⟨v, e | _⟩ <;> simp only [advanceDirect, hs, h]

/-- A phase write that failed changed nothing but the journal. -/
theorem advance_uncertain (hd : O.backend = .direct) (hs : advanceCandidate w phase = .ok s)
    (h : (O.advance w phase faults transaction).2 = .error uncertain) : w.pendingCompletion = none ∧
      ∃ journal, (O.advance w phase faults transaction).1 = { w with writer.journal := journal } := by
  unfold Operation.advance at h ⊢
  by_cases hp : w.pendingCompletion.isSome
  · rw [if_pos hp] at h
    cases h
  · refine ⟨Option.not_isSome_iff_eq_none.1 hp, ?_⟩
    rw [if_neg hp] at h ⊢
    simp only [hd, advanceDirect_eq hs] at h ⊢
    cases hx : O.checkpointDirect w s transaction with
    | mk u result =>
      rw [hx] at h
      cases result with
      | ok _ => cases h
      | error e =>
        obtain ⟨journal, hj⟩ := checkpointDirect_error (by rw [hx])
        cases hx.symm.trans hj
        exact ⟨journal, rfl⟩

/-- A terminal write that failed left the refreshed candidate and changed the journal. -/
theorem retryCompletion_uncertain (hd : O.backend = .direct) {faults : DriveFaults}
    (hs : checkTerminal w = .ok s)
    (h : (O.retryCompletion w faults transaction).2 = .error uncertain) :
    ∃ journal, (O.retryCompletion w faults transaction).1 = { w with
      writer.journal := journal
      pendingCompletion := some { s with cancellationRequested := w.cancelled } } := by
  simp only [Operation.retryCompletion, hd, retryCompletionDirect, hs] at h ⊢
  cases hx : O.checkpointDirect { w with
      pendingCompletion := some { s with cancellationRequested := w.cancelled } }
    { s with cancellationRequested := w.cancelled } transaction with
  | mk u result =>
    rw [hx] at h
    cases result with
    | ok _ => cases h
    | error e =>
      obtain ⟨journal, hj⟩ := checkpointDirect_error (by rw [hx])
      cases hx.symm.trans hj
      exact ⟨journal, rfl⟩

theorem advanceCandidate_eq (h : advanceCandidate w phase = .ok s) (hs : v.snapshot = w.snapshot) :
    ∃ t, advanceCandidate v phase = .ok t ∧ t.operationId = s.operationId ∧
      (t = s ↔ v.cancelled = w.cancelled ∧ v.ledger.records = w.ledger.records) := by
  simp only [advanceCandidate, Except.bind_eq_ok] at h ⊢
  obtain ⟨base, hbase, h⟩ := h
  cases h
  refine ⟨_, ⟨base, hs ▸ hbase, rfl⟩, rfl, ?_⟩
  constructor
  · intro heq
    exact ⟨congrArg OperationSnapshot.cancellationRequested heq,
      congrArg OperationSnapshot.hostEffects heq⟩
  · rintro ⟨hc, hl⟩
    simp [OperationWorld.project, hc, hl]

section
variable {between : List OperationCall} {faults : RecoveryFaults}
  (hd : O.backend = .direct) (D : Direct O w) (hb : ∀ call ∈ between, gathers call)
include hd D hb

theorem Direct.repeat_advance {drive : DriveFaults}
    (hs : advanceCandidate w phase = .ok s)
    (herr : (O.advance w phase drive transaction).2 = .error uncertain)
    (hst : O.stored (O.perform w (.advance phase drive transaction)) =
      some (candidate O.runtimeId w.revision s))
    (hrec : (O.center.journal.recoverStorage
      (O.runFrom (O.perform w (.advance phase drive transaction)) between).writer.journal faults).2 =
        .ok true) :
    let v := O.recovered (O.perform w (.advance phase drive transaction)) between faults
    let x := O.advance v phase drive .none
    x.2 = .ok true ∧ x.1.acknowledged = w.acknowledged ++ [(w.revision.getD 0 + 1, s)] ∧
      x.1.snapshot = s ↔ v.cancelled = w.cancelled ∧ v.ledger.records = w.ledger.records := by
  obtain ⟨hp, journal, hw₁⟩ := advance_uncertain hd hs herr
  have hperform : O.perform w (.advance phase drive transaction) =
      { w with writer.journal := journal } := by
    simp only [Operation.perform, D.gate, Option.isNone_none, if_true, hw₁]
  have D₁ := D.perform hd (.advance phase drive transaction)
  rw [hperform] at hst hrec D₁ ⊢
  obtain ⟨Dv, hready, hstored, hsnap, hrev, hpend, hack⟩ := Direct.recovered hb hrec hd D₁
  intro v
  obtain ⟨t, ht, hid, hiff⟩ := advanceCandidate_eq (v := v) hs hsnap
  have hst : O.stored v = some (candidate O.runtimeId v.revision s) := by
    rw [hstored, hst, hrev]
  have hok := checkpointDirect_ok Dv hready hst hid
  have hadvance : O.advance v phase drive .none = match O.checkpointDirect v t .none with
      | (u, .error e) => (u, .error e)
      | (u, .ok ()) => (u.publish t, .ok true) := by
    have hp : ¬ v.pendingCompletion.isSome := by
      rw [hpend]
      exact Option.not_isSome_iff_eq_none.2 hp
    simp only [Operation.advance, if_neg hp, hd, advanceDirect_eq ht]
  rw [← hiff, hadvance]
  constructor
  · rintro ⟨h, -⟩
    refine hok.1 ?_
    cases hx : O.checkpointDirect v t .none with
    | mk u result =>
      rw [hx] at h
      cases result with
      | ok _ => rfl
      | error _ => cases h
  · rintro rfl
    have hack' := checkpointDirect_acknowledged Dv (hok.2 rfl)
    have hres := hok.2 rfl
    cases hx : O.checkpointDirect v t .none with
    | mk u result =>
      rw [hx] at hres hack'
      cases hres
      refine ⟨rfl, ?_, rfl⟩
      change u.acknowledged = _
      rw [hack', hack, hrev]

theorem Direct.repeat_completion {drive : DriveFaults}
    (hs : checkTerminal w = .ok s)
    (herr : (O.retryCompletion w drive transaction).2 = .error uncertain)
    (hst : O.stored (O.perform w (.retryCompletion drive transaction)) =
      some (candidate O.runtimeId w.revision { s with cancellationRequested := w.cancelled }))
    (hrec : (O.center.journal.recoverStorage
      (O.runFrom (O.perform w (.retryCompletion drive transaction)) between).writer.journal faults).2 =
        .ok true) :
    let written := { s with cancellationRequested := w.cancelled }
    let v := O.recovered (O.perform w (.retryCompletion drive transaction)) between faults
    let x := O.retryCompletion v drive .none
    x.2 = .ok true ∧ x.1.acknowledged = w.acknowledged ++ [(w.revision.getD 0 + 1, written)] ∧
      x.1.snapshot = written ↔ v.cancelled = w.cancelled := by
  obtain ⟨journal, hw₁⟩ := retryCompletion_uncertain hd hs herr
  have D₁ := D.perform hd (.retryCompletion drive transaction)
  simp only [Operation.perform] at hst hrec D₁ ⊢
  rw [hw₁] at hst hrec D₁ ⊢
  obtain ⟨Dv, hready, hstored, hsnap, hrev, hpend, hack⟩ := Direct.recovered hb hrec hd D₁
  generalize O.recovered _ between faults = v at *
  obtain ⟨hphase, -⟩ := checkTerminal_ok hs
  have hterm : checkTerminal v = .ok { s with cancellationRequested := w.cancelled } := by
    simp [checkTerminal, hsnap, hphase, hpend, refuseIf, Except.ok_bind]
  let t : OperationSnapshot := { s with cancellationRequested := v.cancelled }
  have Dt : Direct O { v with pendingCompletion := some t } := Dv.frame rfl rfl rfl rfl rfl (.inl rfl)
  have hst : O.stored { v with pendingCompletion := some t } =
      some (candidate O.runtimeId v.revision { s with cancellationRequested := w.cancelled }) := by
    rw [hrev, ← hst, ← hstored]
    rfl
  have hok := checkpointDirect_ok (t := t) Dt hready hst rfl
  have hiff : t = { s with cancellationRequested := w.cancelled } ↔ v.cancelled = w.cancelled := by
    constructor
    · exact fun h => congrArg OperationSnapshot.cancellationRequested h
    · intro h
      simp only [t, h]
  have hretry : O.retryCompletion v drive .none =
      match O.checkpointDirect { v with pendingCompletion := some t } t .none with
      | (u, .error e) => (u, .error e)
      | (u, .ok ()) => ({ u with pendingCompletion := none }.publish t, .ok true) := by
    simp only [Operation.retryCompletion, hd, retryCompletionDirect, hterm]
    rfl
  rw [← hiff, hretry]
  constructor
  · rintro ⟨h, -⟩
    refine hok.1 ?_
    cases hx : O.checkpointDirect { v with pendingCompletion := some t } t .none with
    | mk u result =>
      rw [hx] at h
      cases result with
      | ok _ => rfl
      | error _ => cases h
  · intro htw
    have hres := hok.2 htw
    have hack' := checkpointDirect_acknowledged Dt hres
    cases hx : O.checkpointDirect { v with pendingCompletion := some t } t .none with
    | mk u result =>
      rw [hx] at hres hack'
      cases hres
      refine ⟨rfl, ?_, htw⟩
      change u.acknowledged = _
      rw [hack', ← htw]
      change v.acknowledged ++ [(v.revision.getD 0 + 1, t)] = _
      rw [hack, hrev]

end

/-- A write of the direct backend that was committed but reported as uncertain, whatever cancellation
was requested and whatever host evidence was gathered since, and a recovery of the storage: repeating
the phase is acknowledged with the committed revision and published exactly when neither the
cancellation flag nor the host evidence differs from those of the write; repeating the completion,
when the cancellation flag does not. -/
theorem run_lost_direct (O : Operation) (hd : O.backend = .direct) (earlier : List JournalCall)
    (calls between : List OperationCall) (hb : ∀ call ∈ between, gathers call)
    (faults : RecoveryFaults) :
    let w := O.run earlier calls
    (∀ phase drive transaction s, advanceCandidate w phase = .ok s →
      let w₁ := O.perform w (.advance phase drive transaction)
      (O.advance w phase drive transaction).2 = .error uncertain →
      O.stored w₁ = some (candidate O.runtimeId w.revision s) →
      (O.center.journal.recoverStorage (O.runFrom w₁ between).writer.journal faults).2 = .ok true →
      let v := O.recovered w₁ between faults
      let x := O.advance v phase drive .none
      (x.2 = .ok true ∧ x.1.acknowledged = w.acknowledged ++ [(w.revision.getD 0 + 1, s)] ∧
        x.1.snapshot = s ↔ v.cancelled = w.cancelled ∧ v.ledger.records = w.ledger.records)) ∧
    (∀ drive transaction s, checkTerminal w = .ok s →
      let w₁ := O.perform w (.retryCompletion drive transaction)
      let written := { s with cancellationRequested := w.cancelled }
      (O.retryCompletion w drive transaction).2 = .error uncertain →
      O.stored w₁ = some (candidate O.runtimeId w.revision written) →
      (O.center.journal.recoverStorage (O.runFrom w₁ between).writer.journal faults).2 = .ok true →
      let v := O.recovered w₁ between faults
      let x := O.retryCompletion v drive .none
      (x.2 = .ok true ∧ x.1.acknowledged = w.acknowledged ++ [(w.revision.getD 0 + 1, written)] ∧
        x.1.snapshot = written ↔ v.cancelled = w.cancelled)) := by
  intro w
  have D : Direct O w := .run hd earlier calls
  refine ⟨?_, ?_⟩
  · intro phase drive transaction s hs w₁ herr hst hrec
    exact D.repeat_advance hd hb hs herr hst hrec
  · intro drive transaction s hs w₁ written herr hst hrec
    exact D.repeat_completion hd hb hs herr hst hrec

def preparedCalls : List OperationCall :=
  [.advance .cleaning ⟨false, false⟩ .none, .prepareCompletion (.ok .null) .notApplicable]

/-- The commit is applied and its confirmation lost. -/
def lostCommit : TransactionFaults := ⟨none, none, true, .lost true⟩

/-- Without a new cancellation the retried completion is published. -/
theorem run_lost_direct_completion :
    let O := plainOperation .direct
    let w := O.run [] preparedCalls
    let v := O.recovered (O.perform w (.retryCompletion ⟨false, false⟩ lostCommit)) [] .none
    let x := O.retryCompletion v ⟨false, false⟩ .none
    let written := { finishedSnapshot false with cancellationRequested := w.cancelled }
    x.2 = .ok true ∧ x.1.acknowledged = w.acknowledged ++ [(w.revision.getD 0 + 1, written)] ∧
      x.1.snapshot = written := by
  obtain ⟨-, h⟩ := run_lost_direct (plainOperation .direct) rfl [] preparedCalls []
    (List.forall_mem_nil _) .none
  refine (h ⟨false, false⟩ lostCommit (finishedSnapshot false) ?_ ?_ ?_ ?_).2 ?_
  all_goals decide +kernel

/-- A cancellation requested before the retry makes the committed record a conflict. -/
theorem lost_completion_stale :
    let O := plainOperation .direct
    let w := O.run [] preparedCalls
    let w₁ := O.perform w (.retryCompletion ⟨false, false⟩ lostCommit)
    let v := O.recovered w₁ [.cancel] .none
    checkTerminal w = .ok (finishedSnapshot false) ∧
      (O.retryCompletion w ⟨false, false⟩ lostCommit).2 = .error uncertain ∧
      O.stored w₁ = some (candidate "rt-1" (some 1) (finishedSnapshot false)) ∧
      (O.center.journal.recoverStorage (O.runFrom w₁ [.cancel]).writer.journal .none).2 = .ok true ∧
      (O.retryCompletion v ⟨false, false⟩ .none).2 = .error stale ∧
      (O.retryCompletion v ⟨false, false⟩ .none).1.snapshot.phase = .cleaning := by
  decide +kernel

end Operation

end LuaSkills.Embedded
