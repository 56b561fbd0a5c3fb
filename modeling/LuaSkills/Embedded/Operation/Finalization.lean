import LuaSkills.Embedded.Operation.Closing
import LuaSkills.Embedded.Operation.Runs

/-!
# Finalization over every history

Each call on an operation is a sequence of closing steps: over a queued history by its moves, without a
history or over a direct journal by the call itself, which publishes what it captures at once. The
promises of the closing stage therefore hold along every run.
-/

namespace LuaSkills.Embedded

open List Option Except OperationWorld EffectLedger

variable {phase : OperationPhase} {export_ : String} {ledger : LedgerState} {result : EmbeddedResult Json}

/-- The components of an operation that its closing stage depends on. -/
def OperationWorld.closing (w : OperationWorld) : ClosingState :=
  ⟨w.snapshot, w.transition.map (·.snapshot), w.pendingCompletion, w.finalization, w.ledger⟩

namespace Operation
variable {O : Operation} {K : Allowance} {w v : OperationWorld} {s : OperationSnapshot}
  {x : ClosingState}

/-! ## Candidates -/

theorem Carries.advance
    (h : w.snapshot.advanceSnapshot phase = .ok s) : Carries w.closing s := by
  obtain ⟨hl, hp, -, -, hv, he, -⟩ := advanceSnapshot_ok h
  obtain ⟨hlive, -, hopen⟩ := legalAdvance_open hl
  exact ⟨hlive, hp ▸ hopen, hv, he⟩

theorem Carries.captured (h : Captured w effect s) : Carries w.closing s := by
  cases h with
  | phase h =>
    obtain ⟨s', hs', h⟩ := bind_eq_ok.1 h
    cases h
    obtain ⟨hlive, hopen, hv, he⟩ := Carries.advance hs'
    exact ⟨hlive, (advanceSnapshot_ok hs').2.1 ▸ hopen, hv, he⟩
  | start h =>
    obtain ⟨hlive, i, record, -, -, -, rfl⟩ := startCandidate_ok h
    exact ⟨hlive, hlive, rfl, rfl⟩
  | outcome h =>
    simp only [outcomeCandidate, bind_eq_ok, refuseIf_eq_ok, Bool.not_eq_true] at h
    obtain ⟨_, hlive, _, _, _, _, h⟩ := h
    cases h
    exact ⟨hlive, hlive, rfl, rfl⟩

theorem ClosingStep.finalize_check {business : OperationOutcome}
    {snapshot : OperationSnapshot} {count : ℕ}
    (h : O.checkFinalization w export_ = .ok (snapshot, ledger, count)) :
    let w' := { w with ledger, finalization := some ⟨false, false⟩ }
    ClosingStep w.closing { w.closing with
      ledger, finalization := some ⟨false, false⟩
      retained := some (finalizationCandidate w' snapshot export_ business count) } := by
  intro w'
  obtain ⟨hf, hp, ht, -, -, hs, hl⟩ := checkFinalization_ok h
  obtain ⟨hlive, -, hv, he⟩ := Carries.advance hs
  have hclean : snapshot.phase = .cleaning := (advanceSnapshot_ok hs).2.1
  refine .finalize hf (by simp [closing, ht]) hp hl ⟨hlive, ?_, hv, he⟩ rfl
  simp [finalizationCandidate, project, hclean, OperationPhase.isTerminal]

theorem ClosingStep.close_check {ownership : FinalizationOwnership} {outcome : OperationOutcome}
    (h : checkOutcome w = .ok (ownership, ledger, records)) :
    let w' := { w with ledger, finalization := some { ownership with outcomePrepared := true } }
    ClosingStep w.closing { w.closing with
      ledger, finalization := some { ownership with outcomePrepared := true }
      retained := some (closingCandidate w' records outcome) } := by
  intro w'
  obtain ⟨ho, hprep, hp, -, ht, hph, hl⟩ := checkOutcome_ok h
  have hopen : w.snapshot.phase.isTerminal = false := by rw [hph]; rfl
  exact .close ho hprep (by simp [closing, ht]) hp hl ⟨hopen, hopen, rfl, rfl⟩ rfl

theorem ClosingStep.issue_check (h : checkControl w = .ok ownership) : ClosingStep w.closing
      { w.closing with finalization := some { ownership with controlIssued := true } } := by
  have ho := checkControl_ok h
  simp only [checkControl, bind_eq_ok, refuseIf_eq_ok, not_or, not_not] at h
  obtain ⟨_, _, _, ht, _, ⟨_, hf⟩, _⟩ := h
  refine .issue ho ?_ ?_
  · simpa [closing] using ht
  · change w.snapshot.finalization.isSome
    simpa [isSome_iff_ne_none] using hf

theorem ClosingStep.complete_check {terminal : EmbeddedResult Json} {effects : EffectState}
    (h : O.checkCompletion w result = .ok (terminal, ledger, records)) :
    ClosingStep w.closing { w.closing with
      ledger, pendingCompletion := some (terminalCandidate w records terminal effects) } := by
  obtain ⟨hp, -, ht, hph, hr, hl⟩ := checkCompletion_ok h
  have hfin : (terminalCandidate w records terminal effects).finalization = w.snapshot.finalization :=
    (terminalSnapshot_fields terminal).2.2.2
  refine .complete (by simp [closing, ht]) hp hl (terminalSnapshot_terminal terminal)
    hfin (fun hplain f hf => ?_) (by rw [closing, hph]; rfl)
  rw [hfin] at hf
  obtain ⟨closing, hc, hproj⟩ := terminalResult_projects (s := { w.snapshot with
    hostEffects := records
    effects := mergeEffects effects records
    cancellationRequested := w.cancelled }) hr hf hplain
  refine ⟨closing, hc, ?_⟩
  rw [OperationOutcome.project_eq]
  exact hproj

/-! ## Queued histories -/

theorem Progress.closing (h : w.slot σ = some c) (hp : Progress O K w c v c') :
    (v.setSlot σ (some c')).closing = w.closing := by
  obtain ⟨hs, hl, hf, hpc, hslot, -, -⟩ := hp.beside
  have ht : v.transition = w.transition := hslot .transition
  have hc := hp.continues.snapshot
  cases σ with
  | transition =>
    have hw : w.transition = some c := h
    simp [OperationWorld.closing, OperationWorld.setSlot, hs, hl, hf, hpc, hw, hc]
  | completion => simp [OperationWorld.closing, OperationWorld.setSlot, hs, hl, hf, hpc, ht]

theorem Inv.closingStep (I : Inv O w) (m : Move O K w v) : ClosingSteps w.closing v.closing := by
  cases m with
  | writer | cancel | gate | authorize | retain => exact .refl
  | ledger m => exact .single (.touch m.touches)
  | capture ht hp _ hc =>
    refine .single (.capture ?_ hp (.captured hc) hc.finalization)
    simp [closing, ht]
  | finalize h => exact .single (.finalize_check h)
  | issue h => exact .single (.issue_check h)
  | close h => exact .single (.close_check h)
  | complete h => exact .single (.complete_check h)
  | progress h hp =>
    rw [hp.closing h]
  | @consume c hc _ he =>
    refine .single (.discard (s := c.snapshot) ?_ ((I.contents.transition c hc).same he))
    simp [closing, hc]
  | @publishPhase c hc _ _ =>
    refine .single (.publish (s := c.snapshot) ?_)
    simp [closing, hc]
  | publishCompletion _ _ _ hp => exact .single (.finish hp)

theorem Inv.closingSteps (I : Inv O w) (m : Moves O K w v) : ClosingSteps w.closing v.closing := by
  induction m with
  | refl => exact .refl
  | tail m hstep ih => exact ih.trans ((I.moves m).closingStep hstep)

/-! ## Other histories -/

/-- Without a queue nothing is retained and nobody waits; a direct journal does not finalize. -/
structure Unqueued (O : Operation) (w : OperationWorld) : Prop where
  backend : O.backend ≠ .queued
  transition : w.transition = none
  completion : w.completion = none
  gate : w.gate = none
  direct : O.backend = .direct → w.finalization = none

theorem Unqueued.retained (U : Unqueued O w) : w.closing.retained = none := by
  simp [closing, U.transition]

/-- What a call leads to when there is no queue. -/
structure Plain (O : Operation) (w v : OperationWorld) : Prop where
  unqueued : Unqueued O v
  steps : ClosingSteps w.closing v.closing

/-- Calls that leave the slots, the gate and what the closing stage depends on. -/
theorem Unqueued.frame (U : Unqueued O w) (ht : v.transition = w.transition)
    (hc : v.completion = w.completion) (hg : v.gate = w.gate)
    (hf : O.backend = .direct → v.finalization = w.finalization) : Unqueued O v :=
  ⟨U.backend, ht.trans U.transition, hc.trans U.completion, hg.trans U.gate,
    fun h => (hf h).trans (U.direct h)⟩

theorem Plain.refl (U : Unqueued O w) : Plain O w w := ⟨U, .refl⟩

section
variable (U : Unqueued O w)
include U

theorem Unqueued.closing_eq : w.closing = ⟨w.snapshot, none, w.pendingCompletion, w.finalization, w.ledger⟩ := by
  rw [closing, U.transition]
  rfl

omit U in
/-- A candidate that is published at once. -/
theorem Plain.publish (h : ClosingStep w.closing y) (hr : y.retained = some s) (hv : Unqueued O v)
    (hs : v.snapshot = s) (hp : v.pendingCompletion = y.pendingCompletion)
    (hf : v.finalization = y.finalization) (hl : v.ledger = y.ledger) : Plain O w v := by
  refine ⟨hv, ?_⟩
  rw [hv.closing_eq, hs, hp, hf, hl]
  exact .head h (.single (.publish hr))

theorem Unqueued.advance (phase : OperationPhase) (hp : w.pendingCompletion = none)
    (h : Captured w none s ∨ w.snapshot.advanceSnapshot phase = .ok s) (hv : Unqueued O v)
    (hs : v.snapshot = s) (hpc : v.pendingCompletion = w.pendingCompletion)
    (hf : v.finalization = w.finalization) (hl : v.ledger = w.ledger) : Plain O w v := by
  have hc : Carries w.closing s ∧ s.finalization = w.snapshot.finalization := by
    rcases h with h | h
    · exact ⟨.captured h, h.finalization⟩
    · exact ⟨.advance h, (advanceSnapshot_ok h).2.2.2.2.2.2⟩
  exact .publish (.capture U.retained hp hc.1 hc.2) rfl hv hs hpc hf hl

theorem Unqueued.advanceMemory (hp : w.pendingCompletion = none) :
    Plain O w (Operation.advanceMemory w phase).1 := by
  unfold Operation.advanceMemory
  split
  · exact .refl U
  · next s hs =>
    exact U.advance phase hp (.inr hs) (U.frame rfl rfl rfl fun _ => rfl) rfl rfl rfl rfl

theorem Unqueued.checkpointDirect (snapshot : OperationSnapshot) (faults : TransactionFaults) :
    let u := (O.checkpointDirect w snapshot faults).1
    Unqueued O u ∧ u.snapshot = w.snapshot ∧ u.pendingCompletion = w.pendingCompletion ∧
      u.finalization = w.finalization ∧ u.ledger = w.ledger := by
  simp only [Operation.checkpointDirect]
  split <;> exact ⟨U.frame rfl rfl rfl fun _ => rfl, rfl, rfl, rfl, rfl⟩

theorem Unqueued.advanceDirect (hp : w.pendingCompletion = none) :
    Plain O w (O.advanceDirect w phase faults).1 := by
  unfold Operation.advanceDirect
  split
  · exact .refl U
  · next s hs =>
    obtain ⟨hu, hsn, hpc, hf, hl⟩ := U.checkpointDirect s faults
    split
    · next u e heq =>
      rw [heq] at hu hsn hpc hf hl
      refine ⟨hu, ?_⟩
      rw [hu.closing_eq, U.closing_eq, hsn, hpc, hf, hl]
    · next u heq =>
      rw [heq] at hu hsn hpc hf hl
      exact U.advance phase hp (.inl (.phase hs)) (hu.frame rfl rfl rfl fun _ => rfl) rfl hpc hf hl

theorem Unqueued.finish {terminal : OperationSnapshot} (hp : w.pendingCompletion = some terminal)
    (hv : Unqueued O v) (hs : v.snapshot = { terminal with cancellationRequested := b })
    (hpc : v.pendingCompletion = none) (hf : v.finalization = w.finalization) (hl : v.ledger = w.ledger) :
    Plain O w v := by
  refine ⟨hv, .head (.refresh b hp) ?_⟩
  rw [hv.closing_eq, U.closing_eq, hs, hpc, hf, hl]
  exact .single (.finish rfl)

theorem Unqueued.retryCompletionMemory : Plain O w (Operation.retryCompletionMemory w).1 := by
  unfold Operation.retryCompletionMemory
  split
  · exact .refl U
  · next s hs =>
    exact U.finish (b := w.cancelled) (checkTerminal_ok hs).2 (U.frame rfl rfl rfl fun _ => rfl) rfl rfl rfl rfl

theorem Unqueued.retryCompletionDirect {faults : TransactionFaults} :
    Plain O w (O.retryCompletionDirect w faults).1 := by
  unfold Operation.retryCompletionDirect
  split
  · exact .refl U
  · next s hs =>
    have hp := (checkTerminal_ok hs).2
    have U' : Unqueued O { w with pendingCompletion := some { s with cancellationRequested := w.cancelled } } :=
      U.frame rfl rfl rfl fun _ => rfl
    obtain ⟨hu, hsn, hpc, hf, hl⟩ :=
      U'.checkpointDirect { s with cancellationRequested := w.cancelled } faults
    dsimp only
    generalize O.checkpointDirect _ _ faults = y at hu hsn hpc hf hl ⊢
    obtain ⟨u, result⟩ := y
    cases result with
    | error e =>
      refine ⟨hu, .single ?_⟩
      rw [hu.closing_eq, U.closing_eq, hsn, hpc, hf, hl]
      exact .refresh w.cancelled hp
    | ok _ => exact U.finish (b := w.cancelled) hp (hu.frame rfl rfl rfl fun _ => rfl) rfl rfl hf hl

theorem Unqueued.setLedger (h : ∀ ledger, y = .ok ledger → LedgerMove O w ledger) :
    Plain O w (setLedger w y) := by
  unfold Operation.setLedger
  split
  · next ledger => exact ⟨U.frame rfl rfl rfl fun _ => rfl, .single (.touch (h ledger rfl).touches)⟩
  · exact .refl U

theorem Unqueued.memory (h : w.finalization.isSome ∨ O.backend ≠ .direct) : O.backend = .memory := by
  cases hb : O.backend with
  | memory => rfl
  | queued => exact absurd hb U.backend
  | direct =>
    rcases h with h | h
    · rw [U.direct hb] at h
      cases h
    · exact absurd hb h

theorem Unqueued.prepareFinalization (export_ : String) (business : EmbeddedResult Json) :
    Plain O w (O.prepareFinalization w export_ business).1 := by
  unfold Operation.prepareFinalization
  split
  · exact .refl U
  · next snapshot ledger count hc =>
    have hm : O.backend = .memory := by
      refine U.memory (.inr ?_)
      simp only [checkFinalization, bind_eq_ok, refuseIf_eq_ok] at hc
      obtain ⟨_, _, _, _, _, _, _, hd, _⟩ := hc
      exact hd
    simp only [retainFinalization, hm]
    exact .publish (.finalize_check hc) rfl (U.frame rfl rfl rfl (by simp [hm])) rfl rfl rfl rfl

theorem Unqueued.takeFinalizationControl : Plain O w (Operation.takeFinalizationControl w).1 := by
  unfold Operation.takeFinalizationControl
  split
  · exact .refl U
  · next ownership hc =>
    have hm := U.memory (.inl (by rw [checkControl_ok hc]; rfl))
    exact ⟨U.frame rfl rfl rfl (by simp [hm]), .single (.issue_check hc)⟩

theorem Unqueued.prepareFinalizationOutcome (result : EmbeddedResult Json) :
    Plain O w (O.prepareFinalizationOutcome w result).1 := by
  unfold Operation.prepareFinalizationOutcome
  split
  · exact .refl U
  · next ownership ledger records hc =>
    have hm := U.memory (.inl (by rw [(checkOutcome_ok hc).1]; rfl))
    simp only [retainFinalization, hm]
    exact .publish (.close_check hc) rfl (U.frame rfl rfl rfl (by simp [hm])) rfl rfl rfl rfl

theorem Unqueued.publishCompletion : Plain O w (O.publishCompletion w).1 := by
  unfold Operation.publishCompletion
  split
  · exact .refl U
  · split
    · next s _ hp =>
      exact U.finish (b := s.cancellationRequested) hp
        ⟨U.backend, U.transition, rfl, U.gate, U.direct⟩ rfl rfl rfl rfl
    · exact .refl U

theorem Unqueued.driveCompletionCheckpoint (retry : Bool) (faults : DriveFaults) :
    (O.driveCompletionCheckpoint w retry faults).1 = w := by
  unfold Operation.driveCompletionCheckpoint
  split
  · rfl
  · split
    · rfl
    · rfl
    · next hq => exact absurd hq U.backend

theorem Unqueued.pollCompletion {retry : Bool} {faults : DriveFaults} :
    Plain O w (O.pollCompletion w retry faults).1 := by
  have drive : Plain O w (O.driveCompletion w retry faults).1 := by
    have hw := U.driveCompletionCheckpoint retry faults
    unfold Operation.driveCompletion
    generalize O.driveCompletionCheckpoint w retry faults = y at hw
    obtain ⟨v, result⟩ := y
    cases hw
    split
    · next heq =>
      cases heq
      exact U.publishCompletion
    · next heq =>
      cases heq
      exact .refl U
  unfold Operation.pollCompletion
  split
  · exact U.retryCompletionMemory
  · exact drive
  · exact drive

/-- Every call of an operation without a queue is a sequence of closing steps. -/
theorem Unqueued.perform (call : OperationCall) : Plain O w (O.perform w call) := by
  cases call with
  | writer call =>
    simp only [Operation.perform]
    split
    · exact ⟨U.frame rfl rfl rfl fun _ => rfl, .refl⟩
    · exact .refl U
  | cancel =>
    simp only [Operation.perform, Operation.cancel]
    split
    · exact .refl U
    · exact ⟨U.frame rfl rfl rfl fun _ => rfl, .refl⟩
  | reserveEffect stage caller registrationId name version =>
    exact U.setLedger fun ledger h => .reserve h
  | bindRequest i requestId =>
    simp only [Operation.perform]
    split
    · exact U.setLedger fun ledger h => .bind h
    · exact .refl U
  | checkpointStart i wait faults =>
    simp only [Operation.perform, Operation.checkpointStart]
    split
    · split
      · exact ⟨U.frame rfl rfl rfl fun _ => rfl, .refl⟩
      · exact .refl U
      · next hq => exact absurd hq U.backend
    · exact .refl U
  | beginEffect i =>
    simp only [Operation.perform]
    split
    · next h => exact U.setLedger fun ledger hl => .begin h.2 hl
    · exact .refl U
  | observe i effects =>
    simp only [Operation.perform]
    split
    · next h =>
      exact ⟨U.frame rfl rfl rfl fun _ => rfl,
        .single (.touch (LedgerMove.observe (O := O) effects h).touches)⟩
    · exact .refl U
  | pollOutcome i faults =>
    simp only [Operation.perform, Operation.pollOutcome]
    split
    · split
      · exact .refl U
      · exact .refl U
      · next hq => exact absurd hq U.backend
    · exact .refl U
  | dropAttempt i =>
    exact ⟨U.frame rfl rfl rfl fun _ => rfl,
      .single (.touch (LedgerMove.drop (O := O) i).touches)⟩
  | advance phase faults transaction =>
    simp only [Operation.perform, Operation.advance]
    split
    · split
      · exact .refl U
      · next hp =>
        have hp : w.pendingCompletion = none := not_isSome_iff_eq_none.1 hp
        split
        · exact U.advanceMemory hp
        · exact U.advanceDirect hp
        · next hq => exact absurd hq U.backend
    · exact .refl U
  | pollAdvance phase faults =>
    simp only [Operation.perform, Operation.pollAdvance, U.gate]
    split
    · exact .refl U
    · next hp =>
      have hp : w.pendingCompletion = none := not_isSome_iff_eq_none.1 hp
      split
      · exact .refl U
      · exact U.advanceMemory hp
      · next hq => exact absurd hq U.backend
  | retryAdvance faults =>
    simp only [Operation.perform, Operation.retryAdvance, U.gate, U.transition]
    exact .refl U
  | prepareFinalization export_ business => exact U.prepareFinalization export_ business
  | pollFinalization faults =>
    simp only [Operation.perform, Operation.pollFinalization, U.gate, U.transition]
    split <;> exact .refl U
  | takeFinalizationControl => exact U.takeFinalizationControl
  | prepareFinalizationOutcome result => exact U.prepareFinalizationOutcome result
  | prepareCompletion result effects =>
    simp only [Operation.perform, Operation.prepareCompletion]
    split
    · exact .refl U
    · next terminal ledger records hc =>
      exact ⟨U.frame rfl rfl rfl fun _ => rfl, .single (.complete_check hc)⟩
  | pollCompletionCheckpoint retry faults =>
    simp only [Operation.perform, U.driveCompletionCheckpoint]
    exact .refl U
  | publishCompletion => exact U.publishCompletion
  | retryCompletion faults transaction =>
    simp only [Operation.perform, Operation.retryCompletion]
    split
    · exact U.retryCompletionMemory
    · exact U.retryCompletionDirect
    · next hq => exact absurd hq U.backend
  | pollCompletion retry faults => exact U.pollCompletion
  | requestCheckpointRetry =>
    have : O.checkRetry w = .ok none := by
      simp only [checkRetry, U.gate, U.transition]
      split <;> rfl
    simp only [Operation.perform, Operation.requestCheckpointRetry, this]
    exact .refl U
  | resume faults =>
    simp only [Operation.perform, Operation.resume, U.gate]
    exact .refl U

end

/-! ## Runs -/

theorem Closing.new (O : Operation) (writer : WriterWorld) : Closing (O.new writer).closing where
  before _ := rfl
  begun := nofun
  frozen _ h := nomatch h
  outcome _ h := nomatch h
  closed := nofun
  older _ h := nomatch h
  pending _ h := nomatch h
  retained _ h := nomatch h
  plain _ := ⟨rfl, rfl⟩
  concluded := nofun

theorem Unqueued.run (U : Unqueued O w) (calls : List OperationCall) :
    Plain O w (O.runFrom w calls) := by
  induction calls generalizing w with
  | nil => exact .refl U
  | cons call calls ih =>
    have h := U.perform call
    have h' := ih h.unqueued
    exact ⟨h'.unqueued, h.steps.trans h'.steps⟩

theorem run_closingSteps (O : Operation) (earlier : List JournalCall) (calls later : List OperationCall) :
    ClosingSteps (O.new (WriterCenter.new (O.center.journal.run earlier))).closing
      (O.run earlier calls).closing ∧
    ClosingSteps (O.run earlier calls).closing (O.runFrom (O.run earlier calls) later).closing := by
  by_cases hq : O.backend = .queued
  · have I := Inv.start O earlier
    have I' : Inv O (O.run earlier calls) := I.runFrom hq calls
    exact ⟨I.closingSteps (I.run_moves hq calls), I'.closingSteps (I'.run_moves hq later)⟩
  · have U : Unqueued O (O.new (WriterCenter.new (O.center.journal.run earlier))) :=
      ⟨hq, rfl, rfl, rfl, fun _ => rfl⟩
    have h := U.run calls
    exact ⟨h.steps, (h.unqueued.run later).steps⟩

theorem run_closing (O : Operation) (earlier : List JournalCall) (calls later : List OperationCall) :
    let w := O.run earlier calls
    Closing w.closing ∧ Onward w.closing (O.runFrom w later).closing ∧
      Closing (O.runFrom w later).closing := by
  intro w
  obtain ⟨h, h'⟩ := run_closingSteps O earlier calls later
  have C := (Closing.new O _).steps h
  exact ⟨C.1, (C.1.steps h').2, (C.1.steps h').1⟩

theorem run_closing_after (O : Operation) (earlier : List JournalCall) (calls : List OperationCall)
    (call : OperationCall) (later : List OperationCall) :
    let w := O.perform (O.run earlier calls) call
    Closing w.closing ∧ Onward w.closing (O.runFrom w later).closing ∧
      Closing (O.runFrom w later).closing := by
  have h := run_closing O earlier (calls ++ [call]) later
  have hw : O.run earlier (calls ++ [call]) = O.perform (O.run earlier calls) call := by
    simp only [Operation.run, Operation.runFrom, foldl_append, foldl_cons, foldl_nil]
  rwa [hw] at h

theorem records_take {l' : LedgerState} (hu : ¬ unfinished l)
    (h : ∀ (i : ℕ) r, l.records[i]? = some r → r.phase = .completed → l'.records[i]? = some r) :
    l'.records.take l.records.length = l.records := by
  refine ext_getElem? fun i => ?_
  rw [getElem?_take]
  split
  · next hi =>
    have hr := getElem?_eq_getElem hi
    rw [hr]
    exact h i _ hr (not_unfinished.1 hu i _ hr)
  · next hi => rw [getElem?_eq_none (not_lt.1 hi)]

theorem Inv.acknowledged_of_finalization (I : Inv O w) (h : w.snapshot.finalization.isSome) :
    ∃ m, (m, w.snapshot) ∈ w.acknowledged := by
  have hs := I.shown.current
  cases hp : w.published.getLast? with
  | none =>
    rw [hp] at hs
    rw [hs] at h
    cases h
  | some x =>
    rw [hp] at hs
    obtain ⟨m, hm⟩ := I.shown.acknowledged x (mem_of_getLast? hp)
    have hx : w.snapshot = x.2 := hs
    exact ⟨m, hx ▸ mem_of_mem_take hm⟩

theorem takeFinalizationControl_ok (h : (takeFinalizationControl w).2 = .ok ()) :
    ∃ ownership, checkControl w = .ok ownership := by
  unfold takeFinalizationControl at h
  split at h
  · cases h
  · next ownership hc => exact ⟨ownership, hc⟩

theorem retainFinalization_spec (ht : w.transition = none) (s : OperationSnapshot) :
    let u := O.retainFinalization w s
    u.closing.evidence = s.finalization ∧ u.finalization = w.finalization ∧ u.ledger = w.ledger := by
  simp only [retainFinalization]
  split
  · exact ⟨by simp [ClosingState.evidence, closing, publish, ht], rfl, rfl⟩
  · exact ⟨rfl, rfl, rfl⟩

theorem prepareFinalization_spec (h : (O.prepareFinalization w export_ business).2 = .ok ()) :
    let u := (O.prepareFinalization w export_ business).1
    ¬ unfinished w.ledger ∧ u.finalization = some ⟨false, false⟩ ∧
      u.ledger = { w.ledger with stage := .finalization } ∧
      u.closing.evidence = some ⟨export_, .bounded O.serde business O.maxValueBytes,
        w.ledger.records.length, none⟩ := by
  cases hc : O.checkFinalization w export_ with
  | error e => simp [prepareFinalization, hc] at h
  | ok checked =>
    obtain ⟨snapshot, ledger, count⟩ := checked
    obtain ⟨-, -, ht, -, -, -, hl⟩ := checkFinalization_ok hc
    obtain ⟨hu, rfl, rfl⟩ := beginFinalization_ok hl
    simp only [prepareFinalization, hc]
    have hspec := fun s => retainFinalization_spec (O := O) (w := { w with
      ledger := { w.ledger with stage := .finalization }
      finalization := some ⟨false, false⟩ }) ht s
    exact ⟨hu, (hspec _).2.1, (hspec _).2.2, (hspec _).1⟩

theorem prepareFinalizationOutcome_spec
    (h : (O.prepareFinalizationOutcome w result).2 = .ok ()) :
    let u := (O.prepareFinalizationOutcome w result).1
    ¬ unfinished w.ledger ∧ (∃ o ∈ u.finalization, o.outcomePrepared) ∧
      u.closing.evidence = w.snapshot.finalization.map fun f =>
        { f with outcome := some (.bounded O.serde result O.maxValueBytes) } := by
  cases hc : checkOutcome w with
  | error e => simp [prepareFinalizationOutcome, hc] at h
  | ok checked =>
    obtain ⟨ownership, ledger, records⟩ := checked
    obtain ⟨-, -, -, -, ht, -, hl⟩ := checkOutcome_ok hc
    obtain ⟨hclosed, rfl, rfl⟩ := sealRecords_ok hl
    simp only [prepareFinalizationOutcome, hc]
    have hspec := fun s => retainFinalization_spec (O := O) (w := { w with
      ledger := { w.ledger with isSealed := true }
      finalization := some { ownership with outcomePrepared := true } }) ht s
    exact ⟨hclosed.2, ⟨_, (hspec _).2.1, rfl⟩, (hspec _).1⟩

section
variable (O : Operation) (earlier : List JournalCall) (calls later : List OperationCall)

/-- The control is issued for a published intent, and never again. -/
theorem run_control (h : (takeFinalizationControl (O.run earlier calls)).2 = .ok ()) :
    let w := O.run earlier calls
    (w.snapshot.phase = .cleaning ∧ w.snapshot.finalization.isSome ∧
      (O.backend = .queued → ∃ m, (m, w.snapshot) ∈ w.acknowledged)) ∧
    (takeFinalizationControl (O.runFrom (O.perform w .takeFinalizationControl) later)).2 ≠ .ok () := by
  intro w
  obtain ⟨ownership, hc⟩ := takeFinalizationControl_ok h
  refine ⟨?_, fun hagain => ?_⟩
  · simp only [checkControl, bind_eq_ok, refuseIf_eq_ok, not_or, not_not] at hc
    obtain ⟨_, _, _, _, _, ⟨hph, hf⟩, _⟩ := hc
    have hf : w.snapshot.finalization.isSome := by simpa [isSome_iff_ne_none] using hf
    exact ⟨hph, hf, fun hq => (Inv.run hq earlier calls).acknowledged_of_finalization hf⟩
  · obtain ⟨-, on, -⟩ := run_closing_after O earlier calls .takeFinalizationControl later
    obtain ⟨o', ho', hissued, -⟩ := on.ownership { ownership with controlIssued := true } (by
      simp [Operation.perform, takeFinalizationControl, hc, closing])
    obtain ⟨o'', hc''⟩ := takeFinalizationControl_ok hagain
    cases (checkControl_ok hc'').symm.trans ho'
    simp only [checkControl, bind_eq_ok, refuseIf_eq_ok, okOr_eq_ok] at hc''
    obtain ⟨_, _, _, _, _, _, o, ho, _, hno, hc''⟩ := hc''
    cases hc''
    exact hno (hissued rfl)

theorem run_frozen (h : (O.prepareFinalization (O.run earlier calls) export_ business).2 = .ok ()) :
    let w := O.run earlier calls
    let v := O.runFrom (O.perform w (.prepareFinalization export_ business)) later
    (∀ caller registrationId name version, ∃ e,
      O.reserveEffect v .business caller registrationId name version = .error e) ∧
    v.ledger.records.take w.ledger.records.length = w.ledger.records ∧
    ∃ f ∈ v.closing.evidence, f.export_ = export_ ∧
      f.business = .bounded O.serde business O.maxValueBytes ∧
      f.businessEffectCount = w.ledger.records.length ∧
      ∀ g ∈ v.snapshot.finalization, Later g f := by
  intro w v
  obtain ⟨-, on, C⟩ := run_closing_after O earlier calls (.prepareFinalization export_ business) later
  obtain ⟨hu, hown, hledger, hev⟩ := prepareFinalization_spec h
  obtain ⟨f, hf, hlater⟩ := on.evidence _ hev
  obtain ⟨o, ho, -⟩ := on.ownership _ hown
  refine ⟨?_, records_take hu fun i r hr => on.records i r ?_, f, hf, ?_, ?_, ?_, ?_⟩
  · intro caller registrationId name version
    have hstage : v.ledger.stage = .finalization := (C.begun (by rw [mem_def.1 ho]; rfl)).1
    cases hres : O.reserveEffect v .business caller registrationId name version with
    | error e => exact ⟨e, rfl⟩
    | ok ledger =>
      simp only [reserveEffect, prepare, bind_eq_ok, refuseIf_eq_ok, not_or,
        not_not] at hres
      obtain ⟨_, _, _, _, _, _, _, _, _, ⟨_, hs⟩, _⟩ := hres
      cases hstage.symm.trans hs
  · exact (congrArg (fun l : LedgerState => l.records[i]?) hledger).trans hr
  · rw [hlater.1]
  · rw [hlater.1]
  · rw [hlater.1]
  · intro g hg
    obtain ⟨f', hf', hg'⟩ := C.older g hg
    cases hf.symm.trans hf'
    exact hg'

/-- The closing outcome is recorded once, when every handler is gone. -/
theorem run_outcome
    (h : (O.prepareFinalizationOutcome (O.run earlier calls) result).2 = .ok ()) :
    let w := O.run earlier calls
    ¬ unfinished w.ledger ∧
    let v := O.runFrom (O.perform w (.prepareFinalizationOutcome result)) later
    (∀ again, (O.prepareFinalizationOutcome v again).2 ≠ .ok ()) ∧
    ∃ f ∈ v.closing.evidence, f.outcome = some (.bounded O.serde result O.maxValueBytes) ∧
      ∀ g ∈ v.snapshot.finalization, Later g f := by
  intro w
  obtain ⟨C₁, on, C⟩ := run_closing_after O earlier calls (.prepareFinalizationOutcome result) later
  obtain ⟨hu, ⟨o₁, ho₁, hprep₁⟩, hev⟩ := prepareFinalizationOutcome_spec h
  refine ⟨hu, fun again hagain => ?_, ?_⟩
  · obtain ⟨o, ho, -, hprep⟩ := on.ownership o₁ ho₁
    unfold prepareFinalizationOutcome at hagain
    split at hagain
    · cases hagain
    · next hc =>
      obtain ⟨hown, hno, -⟩ := checkOutcome_ok hc
      cases hown.symm.trans ho
      rw [hprep hprep₁] at hno
      cases hno
  · have hsome := (C₁.begun (by
      change ((O.prepareFinalizationOutcome w result).1).finalization.isSome
      rw [mem_def.1 ho₁]
      rfl)).2
    obtain ⟨f₁, hf₁⟩ := isSome_iff_exists.1 hsome
    obtain ⟨f, hf, hlater⟩ := on.evidence f₁ hf₁
    have hout : f₁.outcome = some (.bounded O.serde result O.maxValueBytes) := by
      have : _ = some f₁ := hev.symm.trans hf₁
      obtain ⟨f₀, -, rfl⟩ := map_eq_some_iff.1 this
      rfl
    refine ⟨f, hf, ?_, ?_⟩
    · rw [hlater.2 (by rw [hout]; rfl), hout]
    · intro g hg
      obtain ⟨f', hf', hg'⟩ := C.older g hg
      cases hf.symm.trans hf'
      exact hg'

/-- A sealed ledger never changes. -/
theorem run_sealed (h : (O.run earlier calls).ledger.isSealed) :
    (O.runFrom (O.run earlier calls) later).ledger.records = (O.run earlier calls).ledger.records := by
  obtain ⟨C, on, -⟩ := run_closing O earlier calls later
  have htake := records_take (C.closed h) on.records
  have hlen : (O.runFrom (O.run earlier calls) later).ledger.records.length =
      (O.run earlier calls).ledger.records.length := (on.isSealed h).2
  exact (take_of_length_le (Nat.le_of_eq hlen)).symm.trans htake

end

/-- Finalization over every history. The closing control is issued once, for a published intent. From
the beginning of the stage on business effects are refused, the effects recorded so far stay as they
are and the intent keeps its export, its business outcome and its count. The closing outcome is
recorded once, when every handler is gone, and stays. A sealed ledger never changes. The terminal
snapshot shows the business error, else the closing error, else the business value. -/
theorem run_finalization (O : Operation) (earlier : List JournalCall)
    (calls later : List OperationCall) :
    let w := O.run earlier calls
    let bounded := fun result => OperationOutcome.bounded O.serde result O.maxValueBytes
    ((takeFinalizationControl w).2 = .ok () →
      (w.snapshot.phase = .cleaning ∧ w.snapshot.finalization.isSome ∧
        (O.backend = .queued → ∃ m, (m, w.snapshot) ∈ w.acknowledged)) ∧
      (takeFinalizationControl
        (O.runFrom (O.perform w .takeFinalizationControl) later)).2 ≠ .ok ()) ∧
    (∀ export_ business, (O.prepareFinalization w export_ business).2 = .ok () →
      let v := O.runFrom (O.perform w (.prepareFinalization export_ business)) later
      (∀ caller registrationId name version, ∃ e,
        O.reserveEffect v .business caller registrationId name version = .error e) ∧
      v.ledger.records.take w.ledger.records.length = w.ledger.records ∧
      ∃ f ∈ v.closing.evidence, f.export_ = export_ ∧ f.business = bounded business ∧
        f.businessEffectCount = w.ledger.records.length ∧
        ∀ g ∈ v.snapshot.finalization, Later g f) ∧
    (∀ result, (O.prepareFinalizationOutcome w result).2 = .ok () →
      ¬ unfinished w.ledger ∧
      let v := O.runFrom (O.perform w (.prepareFinalizationOutcome result)) later
      (∀ again, (O.prepareFinalizationOutcome v again).2 ≠ .ok ()) ∧
      ∃ f ∈ v.closing.evidence, f.outcome = some (bounded result) ∧
        ∀ g ∈ v.snapshot.finalization, Later g f) ∧
    (w.ledger.isSealed → (O.runFrom w later).ledger.records = w.ledger.records) ∧
    (w.snapshot.phase.isTerminal → ∀ f ∈ w.snapshot.finalization, ∃ closing ∈ f.outcome,
      w.snapshot.projects (f.business.project closing)) := by
  intro w bounded
  refine ⟨run_control O earlier calls later, fun export_ business h => run_frozen O earlier calls later h,
    fun result h => run_outcome O earlier calls later h, run_sealed O earlier calls later, ?_⟩
  obtain ⟨C, -, -⟩ := run_closing O earlier calls []
  exact C.concluded

end Operation

end LuaSkills.Embedded
