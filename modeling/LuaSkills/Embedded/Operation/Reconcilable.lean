import LuaSkills.Embedded.Journal.Reconciliation
import LuaSkills.Embedded.Operation.Budget
import LuaSkills.Embedded.Operation.Finalization
import LuaSkills.Embedded.Operation.Rows

/-!
# Every snapshot of an operation can be reconciled

Each snapshot that an operation shows, retains or hands to its history numbers its effects by position,
and a known aggregate among them is the merge of the effects beside it: the builders of candidates merge
what they carry, and a phase change either forgets the aggregate or keeps it with its effects. The same
holds of the record that the journal stores, so a host that resolves the effects of any of them
consistently finds an aggregate that is accepted.
-/

namespace LuaSkills.Embedded

open WriterWorld OperationJournal OperationReconciliation List

variable {effect : Option CheckpointEffect} {phase : OperationPhase}

/-- A snapshot that the operation shows, retains or has handed to its history. -/
inductive OperationWorld.Produced (w : OperationWorld) : OperationSnapshot → Prop where
  | shown : w.Produced w.snapshot
  | retained {σ : Slot} {c : PendingCheckpoint} : w.slot σ = some c → w.Produced c.snapshot
  | pending {s : OperationSnapshot} : w.pendingCompletion = some s → w.Produced s
  | published {x : ℕ × OperationSnapshot} : x ∈ w.published → w.Produced x.2
  | submitted {x : Submission} : x ∈ w.submissions → w.Produced x.snapshot
  | acknowledged {x : ℕ × OperationSnapshot} : x ∈ w.acknowledged → w.Produced x.2

namespace OperationWorld
variable {w v : OperationWorld} {σ : Slot} {s t : OperationSnapshot}

theorem Produced.frame (h : v.Produced s) (hs : v.snapshot = w.snapshot)
    (hslot : ∀ τ, v.slot τ = w.slot τ) (hp : v.pendingCompletion = w.pendingCompletion)
    (hpub : v.published = w.published) (hsub : v.submissions = w.submissions)
    (hack : v.acknowledged = w.acknowledged) : w.Produced s := by
  cases h with
  | shown => exact hs ▸ .shown
  | retained h => exact .retained ((hslot _).symm.trans h)
  | pending h => exact .pending (hp.symm.trans h)
  | published h => exact .published (hpub ▸ h)
  | submitted h => exact .submitted (hsub ▸ h)
  | acknowledged h => exact .acknowledged (hack ▸ h)

theorem Produced.setSlot (h : (w.setSlot σ d).Produced s) : w.Produced s ∨ ∃ c ∈ d, c.snapshot = s := by
  cases h with
  | shown => exact .inl .shown
  | @retained τ c h =>
    by_cases hτ : τ = σ
    · subst hτ
      rw [OperationWorld.slot_setSlot] at h
      exact .inr ⟨c, h, rfl⟩
    · rw [OperationWorld.slot_setSlot_ne _ hτ] at h
      exact .inl (.retained h)
  | pending h => exact .inl (.pending h)
  | published h => exact .inl (.published h)
  | submitted h => exact .inl (.submitted h)
  | acknowledged h => exact .inl (.acknowledged h)

theorem Produced.retain (h : (w.retain σ effect t).Produced s) :
    w.Produced s ∨ s = t := by
  rcases Produced.setSlot h with h | ⟨c, hc, rfl⟩
  · exact .inl (h.frame rfl (fun _ => rfl) rfl rfl rfl rfl)
  · cases hc
    exact .inr rfl

theorem Produced.publish (h : (w.publish t).Produced s) : w.Produced s ∨ s = t := by
  cases h with
  | shown => exact .inr rfl
  | retained h => exact .inl (.retained h)
  | pending h => exact .inl (.pending h)
  | published h =>
    rcases mem_append.1 h with h | h
    · exact .inl (.published h)
    · cases mem_singleton.1 h
      exact .inr rfl
  | submitted h => exact .inl (.submitted h)
  | acknowledged h => exact .inl (.acknowledged h)

end OperationWorld

namespace Operation
variable {O : Operation} {K : Allowance} {w v : OperationWorld} {c c' : PendingCheckpoint} {σ : Slot}
  {s t : OperationSnapshot} {records : List HostEffectRecord} {l : LedgerState}

/-! ## Settled snapshots -/

def Numbered (O : Operation) (records : List HostEffectRecord) : Prop :=
  ∀ (i : ℕ) r, records[i]? = some r → r.effectId = O.effects.effectId i

/-- The effects are numbered, and a known aggregate is their merge. -/
structure Settled (O : Operation) (s : OperationSnapshot) : Prop where
  numbered : O.Numbered s.hostEffects
  known : s.effects ≠ .unknown → mergeEffects s.effects s.hostEffects = s.effects

theorem effectId_ne_empty (O : Operation) (i : ℕ) : (O.effects.effectId i).isEmpty = false := by
  have h : O.effects.effectId i ≠ "" := by
    intro h
    have := congrArg String.toList h
    simp [EffectLedger.effectId] at this
  simpa [String.isEmpty_iff] using h

theorem Settled.merged (S : O.Settled s) : Merged s where
  named r hr := by
    obtain ⟨i, hi⟩ := mem_iff_getElem?.1 hr
    rw [S.numbered i r hi]
    exact effectId_ne_empty O i
  distinct := by
    refine nodup_iff_getElem?_ne_getElem?.2 fun i j hij hj heq => ?_
    rw [length_map] at hj
    have hi := hij.trans hj
    rw [getElem?_map, getElem?_map, getElem?_eq_getElem hi,
      getElem?_eq_getElem hj] at heq
    have hid : s.hostEffects[i].effectId = s.hostEffects[j].effectId := Option.some.inj heq
    rw [S.numbered i _ (getElem?_eq_getElem hi), S.numbered j _ (getElem?_eq_getElem hj)] at hid
    exact hij.ne (O.effects.effectId_injective hid)
  known := S.known

/-- A merge over the records that a snapshot carries. -/
theorem Settled.of_merge (hn : O.Numbered s.hostEffects) (h : s.effects = mergeEffects base s.hostEffects) :
    O.Settled s := by
  refine ⟨hn, fun _ => ?_⟩
  rw [h, mergeEffects_idem]

theorem Settled.of_eq (S : O.Settled s) (hr : t.hostEffects = s.hostEffects)
    (he : t.effects = s.effects) : O.Settled t := by
  refine ⟨hr ▸ S.numbered, fun h => ?_⟩
  rw [hr, he]
  exact S.known (he ▸ h)

/-- A phase change forgets the aggregate or keeps it with its effects. -/
theorem Settled.advance (S : O.Settled s)
    (h : s.advanceSnapshot phase = .ok t) : O.Settled t := by
  simp only [OperationSnapshot.advanceSnapshot, Except.bind_eq_ok, refuseIf_eq_ok, not_not] at h
  obtain ⟨_, -, h⟩ := h
  cases h
  refine ⟨S.numbered, fun hne => ?_⟩
  dsimp only at hne ⊢
  split at hne
  · exact absurd rfl hne
  · next h => rw [if_neg h]; exact S.known hne

theorem Settled.terminal (S : O.Settled s) (result : EmbeddedResult Json) :
    O.Settled (terminalSnapshot s result) := by
  cases result <;> exact S.of_eq rfl rfl

theorem Settled.evidence (hn : O.Numbered records) : O.Settled (evidence w records) :=
  .of_merge hn rfl

theorem Settled.initial (O : Operation) : O.Settled O.initial :=
  .of_merge (fun _ _ h => nomatch h)
    (show O.initial.effects = mergeEffects .notStarted O.initial.hostEffects from rfl)

/-! ## The ledger -/

theorem Numbered.set (hn : O.Numbered records) {r' : HostEffectRecord} (hr : records[i]? = some r)
    (hid : r'.effectId = r.effectId) : O.Numbered (records.set i r') := by
  intro j x hx
  by_cases hij : i = j
  · subst hij
    rw [List.getElem?_set_self (List.getElem?_eq_some_iff.1 hr).1] at hx
    cases hx
    rw [hid, hn i r hr]
  · rw [getElem?_set_ne hij] at hx
    exact hn j x hx

theorem Numbered.modify (hn : O.Numbered records) {f : HostEffectRecord → HostEffectRecord}
    (hf : ∀ r, (f r).effectId = r.effectId) : O.Numbered (records.modify i f) := by
  intro j x hx
  rw [getElem?_modify] at hx
  obtain ⟨r, hr, rfl⟩ := Option.map_eq_some_iff.1 hx
  split
  · rw [hf, hn j r hr]
  · exact hn j r hr

theorem Numbered.append (hn : O.Numbered records) {r : HostEffectRecord}
    (hid : r.effectId = O.effects.effectId records.length) : O.Numbered (records ++ [r]) := by
  intro i x hx
  rcases Nat.lt_trichotomy i records.length with h | rfl | h
  · exact hn i x ((getElem?_append_left h).symm.trans hx)
  · rw [getElem?_concat_length] at hx
    cases hx
    exact hid
  · rw [getElem?_eq_none (by simpa using Nat.succ_le_of_lt h)] at hx
    cases hx

theorem Numbered.ledger (hn : O.Numbered w.ledger.records) (m : LedgerMove O w l) :
    O.Numbered l.records := by
  cases m with
  | reserve h =>
    obtain ⟨bytes, rfl, -⟩ := reserveEffect_ok h
    exact hn.append rfl
  | bind h =>
    obtain ⟨bytes, record, hr, -, rfl⟩ := bindRequest_ok h
    exact hn.set hr rfl
  | begin _ h =>
    obtain ⟨record, hr, -, rfl⟩ := beginEffect_ok h
    exact hn.set hr rfl
  | observe effects _ => exact hn.modify fun _ => rfl
  | drop i => exact hn.modify fun _ => rfl

theorem Settled.project (hn : O.Numbered w.ledger.records) (s : OperationSnapshot) :
    O.Settled (w.project s) := .of_merge hn rfl

theorem Settled.captured (hn : O.Numbered w.ledger.records)
    (h : Captured w effect s) : O.Settled s := by
  cases h with
  | phase h =>
    obtain ⟨s', -, h⟩ := Except.bind_eq_ok.1 h
    cases h
    exact (Settled.project hn s').of_eq rfl rfl
  | start h =>
    obtain ⟨-, i, record, hr, -, -, rfl⟩ := startCandidate_ok h
    exact .evidence (hn.set hr rfl)
  | outcome h =>
    simp only [outcomeCandidate, Except.bind_eq_ok, refuseIf_eq_ok] at h
    obtain ⟨_, _, _, _, _, _, h⟩ := h
    cases h
    exact .evidence hn

/-! ## What a run produces -/

structure Aggregated (O : Operation) (w : OperationWorld) : Prop where
  ledger : O.Numbered w.ledger.records
  settled : ∀ s, w.Produced s → O.Settled s

/-- The snapshots of `v` are those of `w`, and new ones that are settled. -/
theorem Aggregated.extend (A : Aggregated O w) (hl : O.Numbered v.ledger.records)
    (h : ∀ s, v.Produced s → w.Produced s ∨ O.Settled s) : Aggregated O v :=
  ⟨hl, fun s hs => (h s hs).elim (A.settled s) fun h => h⟩

theorem Aggregated.frame (A : Aggregated O w) (hl : O.Numbered v.ledger.records)
    (hs : v.snapshot = w.snapshot) (hslot : ∀ τ, v.slot τ = w.slot τ)
    (hp : v.pendingCompletion = w.pendingCompletion) (hpub : v.published = w.published)
    (hsub : v.submissions = w.submissions) (hack : v.acknowledged = w.acknowledged) : Aggregated O v :=
  A.extend hl fun _ h => .inl (h.frame hs hslot hp hpub hsub hack)

theorem Aggregated.retain (A : Aggregated O w) (S : O.Settled s) :
    Aggregated O (w.retain σ effect s) := by
  refine A.extend ?_ fun t h => ?_
  · cases σ <;> exact A.ledger
  · rcases h.retain with h | rfl
    · exact .inl h
    · exact .inr S

theorem Aggregated.publish (A : Aggregated O w) (S : O.Settled s) : Aggregated O (w.publish s) := by
  refine A.extend A.ledger fun t h => ?_
  rcases h.publish with h | rfl
  · exact .inl h
  · exact .inr S

theorem Aggregated.pending (A : Aggregated O w) (S : O.Settled s) :
    Aggregated O { w with pendingCompletion := some s } := by
  refine A.extend A.ledger fun t h => ?_
  cases h with
  | shown => exact .inl .shown
  | retained h => exact .inl (.retained h)
  | pending h => exact .inr (Option.some.inj h ▸ S)
  | published h => exact .inl (.published h)
  | submitted h => exact .inl (.submitted h)
  | acknowledged h => exact .inl (.acknowledged h)

theorem Aggregated.release (A : Aggregated O w) : Aggregated O (w.setSlot σ none) := by
  refine A.extend ?_ fun t h => h.setSlot.imp_right fun ⟨c, hc, _⟩ => nomatch hc
  cases σ <;> exact A.ledger

theorem Aggregated.acknowledge (A : Aggregated O w) (S : O.Settled s) (n : ℕ) :
    Aggregated O { w with acknowledged := w.acknowledged ++ [(n, s)] } := by
  refine A.extend A.ledger fun t h => ?_
  cases h with
  | shown => exact .inl .shown
  | retained h => exact .inl (.retained h)
  | pending h => exact .inl (.pending h)
  | published h => exact .inl (.published h)
  | submitted h => exact .inl (.submitted h)
  | acknowledged h =>
    rcases mem_append.1 h with h | h
    · exact .inl (.acknowledged h)
    · cases mem_singleton.1 h
      exact .inr S

theorem Aggregated.submit (A : Aggregated O w) (x : Submission) (S : O.Settled x.snapshot) :
    Aggregated O { w with submissions := w.submissions ++ [x] } := by
  refine A.extend A.ledger fun t h => ?_
  cases h with
  | shown => exact .inl .shown
  | retained h => exact .inl (.retained h)
  | pending h => exact .inl (.pending h)
  | published h => exact .inl (.published h)
  | submitted h =>
    rcases mem_append.1 h with h | h
    · exact .inl (.submitted h)
    · cases mem_singleton.1 h
      exact .inr S
  | acknowledged h => exact .inl (.acknowledged h)

/-- The terminal snapshot is published. -/
theorem Aggregated.finish (A : Aggregated O w) (hp : w.pendingCompletion = some s) :
    Aggregated O ({ w with completion := none, pendingCompletion := none }.publish s) := by
  have S : O.Settled s := A.settled s (.pending hp)
  refine Aggregated.publish ?_ S
  refine A.release (σ := .completion) |>.extend A.ledger fun t h => ?_
  cases h with
  | shown => exact .inl .shown
  | retained h => exact .inl (.retained h)
  | pending h => cases h
  | published h => exact .inl (.published h)
  | submitted h => exact .inl (.submitted h)
  | acknowledged h => exact .inl (.acknowledged h)

/-- A candidate moves on beside its slot. -/
theorem Aggregated.progress (A : Aggregated O w) (h : w.slot σ = some c)
    (hp : Progress O K w c v c') : Aggregated O (v.setSlot σ (some c')) := by
  have S : O.Settled c.snapshot := A.settled _ (.retained h)
  have hc : c'.snapshot = c.snapshot := hp.continues.snapshot
  have beside : Aggregated O v := by
    cases hp with
    | permit | fail | request => exact A.frame A.ledger rfl (fun _ => rfl) rfl rfl rfl rfl
    | submit => exact .frame (A.submit ⟨_, _, _⟩ S) A.ledger rfl (fun _ => rfl) rfl rfl rfl rfl
    | lose | settle | report => exact A
    | acknowledge => exact .frame (A.acknowledge S _) A.ledger rfl (fun _ => rfl) rfl rfl rfl rfl
  refine beside.extend ?_ fun t ht => ht.setSlot.imp_right ?_
  · cases σ <;> exact beside.ledger
  · rintro ⟨d, hd, rfl⟩
    cases hd
    exact S.of_eq (by rw [hc]) (by rw [hc])

theorem Aggregated.move (A : Aggregated O w) (m : Move O K w v) : Aggregated O v := by
  have hn := A.ledger
  cases m with
  | writer | cancel | gate | issue | authorize =>
    exact A.frame hn rfl (fun _ => rfl) rfl rfl rfl rfl
  | ledger m => exact A.frame (hn.ledger m) rfl (fun _ => rfl) rfl rfl rfl rfl
  | capture _ _ _ hc => exact A.retain (.captured hn hc)
  | finalize h =>
    obtain ⟨-, -, -, -, -, -, hl⟩ := checkFinalization_ok h
    obtain ⟨-, -, rfl⟩ := beginFinalization_ok hl
    refine Aggregated.retain ?_ (.of_merge hn rfl)
    exact A.frame hn rfl (fun _ => rfl) rfl rfl rfl rfl
  | close h =>
    obtain ⟨-, -, -, -, -, -, hl⟩ := checkOutcome_ok h
    obtain ⟨-, rfl, rfl⟩ := sealRecords_ok hl
    refine Aggregated.retain ?_ (.of_merge hn rfl)
    exact A.frame hn rfl (fun _ => rfl) rfl rfl rfl rfl
  | complete h =>
    obtain ⟨-, -, -, -, -, hl⟩ := checkCompletion_ok h
    obtain ⟨-, rfl, rfl⟩ := sealRecords_ok hl
    refine .frame (A.pending ?_) hn rfl (fun _ => rfl) rfl rfl rfl rfl
    exact Settled.terminal (.of_merge hn rfl) _
  | retain h => exact A.retain (A.settled _ (.pending (checkTerminal_ok h).2))
  | progress h hp => exact A.progress h hp
  | consume => exact A.release (σ := .transition)
  | @publishPhase c hc _ _ =>
    exact (A.publish (A.settled _ (.retained (σ := .transition) hc))).release (σ := .transition)
  | publishCompletion _ _ _ hp => exact A.finish hp

theorem Aggregated.moves (A : Aggregated O w) (m : Moves O K w v) : Aggregated O v := by
  induction m with
  | refl => exact A
  | tail _ m ih => exact ih.move m

theorem Aggregated.new (O : Operation) (writer : WriterWorld) : Aggregated O (O.new writer) where
  ledger _ _ h := nomatch h
  settled s h := by
    cases h with
    | shown => exact .initial O
    | @retained σ c h => cases σ <;> cases h
    | pending h => cases h
    | published h | submitted h | acknowledged h => cases h

/-! ## Other histories -/

/-- What an operation without a queue produces and stores; `fresh` says that nothing was stored before. -/
structure Upheld (O : Operation) (fresh : Prop) (w : OperationWorld) : Prop where
  aggregated : Aggregated O w
  writer : ∃ n p, w.writer.Inv O.center n p
  sound : O.center.journal.Sound w.writer.journal.table
  flight : ∀ x ∈ w.writer.charges, x.1.key ≠ O.key
  row : fresh → ∀ r, O.stored w = some r → r.reconciliation = none → O.Settled r.snapshot

section
variable {fresh : Prop} (H : Upheld O fresh w)
include H

theorem Upheld.frame (A : Aggregated O v) (hw : v.writer = w.writer) : Upheld O fresh v where
  aggregated := A
  writer := hw ▸ H.writer
  sound := hw ▸ H.sound
  flight := hw ▸ H.flight
  row hf r hr := H.row hf r (by rwa [stored, ← hw])

/-- Somebody else's call on the journal. -/
theorem Upheld.journal {W : WriterWorld}
    (hj : W.journal = (O.center.journal.perform w.writer.journal call).1)
    (hk : ∀ k n c, call.write? = some (k, n, .snapshot c) → O.key ≠ k)
    (hr : O.stored { w with writer := W } = some r) (hn : r.reconciliation = none) (hf : fresh) :
    O.Settled r.snapshot := by
  have hr : O.center.journal.record W.journal.table O.key = some r := hr
  rw [hj] at hr
  rcases perform_record H.sound hk with h | ⟨-, r', h, ha⟩ | ⟨-, h⟩
  · exact H.row hf r (h.symm.trans hr) hn
  · cases hr.symm.trans h
    rw [hn] at ha
    cases ha
  · exact absurd (hr.symm.trans h) nofun

theorem Upheld.writerCall (hf : O.foreign w.writer call) :
    Upheld O fresh { w with writer := O.center.perform w.writer call } := by
  obtain ⟨n, p, W⟩ := H.writer
  have A : Aggregated O { w with writer := O.center.perform w.writer call } :=
    H.aggregated.frame H.aggregated.ledger rfl (fun _ => rfl) rfl rfl rfl rfl
  have hw := (W.call call).1
  cases W.seen call with
  | none hj _ hc =>
    exact ⟨A, hw, hj ▸ H.sound, hc ▸ H.flight, fun hf r hr => H.row hf r (by rwa [stored, ← hj])⟩
  | @submit request _ bytes hcall hj _ hc =>
    subst hcall
    refine ⟨A, hw, hj ▸ H.sound, fun x hx => ?_, fun hf r hr => H.row hf r (by rwa [stored, ← hj])⟩
    rw [hc] at hx
    rcases mem_append.1 hx with hx | hx
    · exact H.flight x hx
    · cases mem_singleton.1 hx
      exact of_decide_eq_true hf
  | @journal journalCall hcall hj _ hc =>
    subst hcall
    refine ⟨A, hw, ?_, hc ▸ H.flight, fun h r hr hn => H.journal hj (foreign_write hf) hr hn h⟩
    rw [hj]
    exact (perform_effect H.sound journalCall).1.sound H.sound
  | @execute i id x fault faults hcall hx _ hj _ hc =>
    have hj : (O.center.perform w.writer call).journal = (O.center.journal.perform w.writer.journal
        (.writeCheckpoint x.1.runtimeId x.1.expectedRevision x.1.snapshot x.1.reconcile faults)).1 := hj
    refine ⟨A, hw, ?_, hc ▸ H.flight, fun h r hr hn => H.journal hj ?_ hr hn h⟩
    · rw [hj]
      exact (perform_effect H.sound _).1.sound H.sound
    · rintro k m s ⟨⟩
      exact Ne.symm (H.flight x (mem_of_getElem? hx))

/-- A synchronous write of a settled snapshot. -/
theorem Upheld.checkpoint (S : O.Settled s) (faults : TransactionFaults) :
    Upheld O fresh (O.checkpointDirect w s faults).1 := by
  obtain ⟨n, p, W⟩ := H.writer
  obtain ⟨htable, -⟩ := writeCheckpoint_effect H.sound O.runtimeId w.revision s true faults
  have hwriter := (W.call (.journal (.writeCheckpoint O.runtimeId w.revision s true faults))).1
  have B : Upheld O fresh { w with writer.journal :=
      (O.center.journal.writeCheckpoint w.writer.journal O.runtimeId w.revision s true faults).1 } := by
    refine ⟨?_, hwriter, ?_, H.flight, fun hf r hr hn => ?_⟩
    · exact H.aggregated.frame H.aggregated.ledger rfl (fun _ => rfl) rfl rfl rfl rfl
    · exact (perform_effect H.sound (.writeCheckpoint O.runtimeId w.revision s true faults)).1.sound H.sound
    · rcases htable with ht | hput
      · exact H.row hf r (by rwa [stored, ← ht]) hn
      · by_cases hk : O.key = (O.runtimeId, s.operationId)
        · have hr := (congrArg (O.center.journal.record _) hk).symm.trans hr
          cases hr.symm.trans hput.record_self
          exact S
        · exact H.row hf r ((hput.record_ne hk).symm.trans hr) hn
  simp only [checkpointDirect]
  split
  · exact B
  · refine B.frame (.frame (B.aggregated.acknowledge S _) ?_ rfl (fun _ => rfl) rfl rfl rfl rfl) rfl
    exact B.aggregated.ledger

theorem Upheld.publish (S : O.Settled s) : Upheld O fresh (w.publish s) := H.frame (H.aggregated.publish S) rfl

theorem Upheld.setLedger (h : ∀ ledger, y = .ok ledger → LedgerMove O w ledger) :
    Upheld O fresh (setLedger w y) := by
  unfold Operation.setLedger
  split
  · next ledger =>
    have hn := H.aggregated.ledger.ledger (h ledger rfl)
    exact H.frame (H.aggregated.frame hn rfl (fun _ => rfl) rfl rfl rfl rfl) rfl
  · exact H

theorem Upheld.advanceMemory : Upheld O fresh (Operation.advanceMemory w phase).1 := by
  unfold Operation.advanceMemory
  split
  · exact H
  · next s hs => exact H.publish ((H.aggregated.settled _ .shown).advance hs)

theorem Upheld.advanceDirect : Upheld O fresh (O.advanceDirect w phase faults).1 := by
  unfold Operation.advanceDirect
  split
  · exact H
  · next s hs =>
    have S : O.Settled s := .captured H.aggregated.ledger (.phase hs)
    have H' := H.checkpoint S faults
    split
    · next heq =>
      rw [heq] at H'
      exact H'
    · next heq =>
      rw [heq] at H'
      exact H'.publish S

/-- The cancellation of the terminal snapshot is refreshed. -/
theorem Upheld.refresh (hp : w.pendingCompletion = some s) (cancelled : Bool) :
    O.Settled { s with cancellationRequested := cancelled } :=
  (H.aggregated.settled s (.pending hp)).of_eq rfl rfl

theorem Upheld.clear : Upheld O fresh { w with pendingCompletion := none } := by
  refine H.frame (H.aggregated.extend H.aggregated.ledger fun t h => .inl ?_) rfl
  cases h with
  | shown => exact .shown
  | retained h => exact .retained h
  | pending h => cases h
  | published h => exact .published h
  | submitted h => exact .submitted h
  | acknowledged h => exact .acknowledged h

theorem Upheld.retryCompletionMemory : Upheld O fresh (Operation.retryCompletionMemory w).1 := by
  unfold Operation.retryCompletionMemory
  split
  · exact H
  · next s hs =>
    have S := H.refresh (checkTerminal_ok hs).2 w.cancelled
    exact Upheld.publish H.clear S

theorem Upheld.retryCompletionDirect {faults : TransactionFaults} :
    Upheld O fresh (O.retryCompletionDirect w faults).1 := by
  unfold Operation.retryCompletionDirect
  split
  · exact H
  · next s hs =>
    have S := H.refresh (checkTerminal_ok hs).2 w.cancelled
    have H' : Upheld O fresh { w with
        pendingCompletion := some { s with cancellationRequested := w.cancelled } } :=
      H.frame (H.aggregated.pending S) rfl
    have H'' := H'.checkpoint S faults
    dsimp only
    split
    · next heq =>
      rw [heq] at H''
      exact H''
    · next heq =>
      rw [heq] at H''
      exact Upheld.publish H''.clear S

theorem Upheld.publishCompletion : Upheld O fresh (O.publishCompletion w).1 := by
  unfold Operation.publishCompletion
  split
  · exact H
  · split
    · next s _ hp => exact H.frame (H.aggregated.finish hp) rfl
    · exact H

theorem Upheld.pollCompletion (U : Unqueued O w) {retry : Bool} {faults : DriveFaults} :
    Upheld O fresh (O.pollCompletion w retry faults).1 := by
  have drive : Upheld O fresh (O.driveCompletion w retry faults).1 := by
    have hw := U.driveCompletionCheckpoint retry faults
    unfold Operation.driveCompletion
    generalize O.driveCompletionCheckpoint w retry faults = y at hw
    obtain ⟨v, result⟩ := y
    cases hw
    split
    · next heq =>
      cases heq
      exact H.publishCompletion
    · next heq =>
      cases heq
      exact H
  unfold Operation.pollCompletion
  split
  · exact H.retryCompletionMemory
  · exact drive
  · exact drive

theorem Upheld.retainFinalization (S : O.Settled s) : Upheld O fresh (O.retainFinalization w s) := by
  unfold Operation.retainFinalization
  split
  · exact H.publish S
  · refine H.frame (H.aggregated.retain S) ?_
    rfl

theorem Upheld.prepareFinalization (export_ : String) (business : EmbeddedResult Json) :
    Upheld O fresh (O.prepareFinalization w export_ business).1 := by
  unfold Operation.prepareFinalization
  split
  · exact H
  · next snapshot ledger count hc =>
    obtain ⟨-, -, -, -, -, -, hl⟩ := checkFinalization_ok hc
    obtain ⟨-, -, rfl⟩ := beginFinalization_ok hl
    have hn := H.aggregated.ledger
    refine Upheld.retainFinalization ?_ ?_
    · exact H.frame (H.aggregated.frame hn rfl (fun _ => rfl) rfl rfl rfl rfl) rfl
    · exact .of_merge hn rfl

theorem Upheld.takeFinalizationControl : Upheld O fresh (Operation.takeFinalizationControl w).1 := by
  unfold Operation.takeFinalizationControl
  split
  · exact H
  · exact H.frame (H.aggregated.frame H.aggregated.ledger rfl (fun _ => rfl) rfl rfl rfl rfl) rfl

theorem Upheld.prepareFinalizationOutcome (result : EmbeddedResult Json) :
    Upheld O fresh (O.prepareFinalizationOutcome w result).1 := by
  unfold Operation.prepareFinalizationOutcome
  split
  · exact H
  · next ownership ledger records hc =>
    obtain ⟨-, -, -, -, -, -, hl⟩ := checkOutcome_ok hc
    obtain ⟨-, rfl, rfl⟩ := sealRecords_ok hl
    have hn := H.aggregated.ledger
    refine Upheld.retainFinalization ?_ ?_
    · exact H.frame (H.aggregated.frame hn rfl (fun _ => rfl) rfl rfl rfl rfl) rfl
    · exact .of_merge hn rfl

theorem Upheld.prepareCompletion (result : EmbeddedResult Json) (effects : EffectState) :
    Upheld O fresh (O.prepareCompletion w result effects).1 := by
  unfold Operation.prepareCompletion
  split
  · exact H
  · next terminal ledger records hc =>
    obtain ⟨-, -, -, -, -, hl⟩ := checkCompletion_ok hc
    obtain ⟨-, rfl, rfl⟩ := sealRecords_ok hl
    have hn := H.aggregated.ledger
    have S : O.Settled (terminalCandidate w w.ledger.records terminal effects) :=
      Settled.terminal (.of_merge hn rfl) _
    refine H.frame (.frame (H.aggregated.pending S) hn rfl (fun _ => rfl) rfl rfl rfl rfl) rfl

theorem Upheld.ledger (m : LedgerMove O w l) : Upheld O fresh { w with ledger := l } := by
  have hn := H.aggregated.ledger.ledger m
  exact H.frame (H.aggregated.frame hn rfl (fun _ => rfl) rfl rfl rfl rfl) rfl

theorem Upheld.perform (U : Unqueued O w) (call : OperationCall) : Upheld O fresh (O.perform w call) := by
  have same : ∀ {v : OperationWorld}, v.ledger = w.ledger → v.snapshot = w.snapshot →
      (∀ τ, v.slot τ = w.slot τ) → v.pendingCompletion = w.pendingCompletion →
      v.published = w.published → v.submissions = w.submissions → v.acknowledged = w.acknowledged →
      v.writer = w.writer → Upheld O fresh v := fun hl hs hslot hp hpub hsub hack hw =>
    H.frame (H.aggregated.frame (hl ▸ H.aggregated.ledger) hs hslot hp hpub hsub hack) hw
  cases call with
  | writer call =>
    simp only [Operation.perform]
    split
    · next hf => exact H.writerCall hf
    · exact H
  | cancel =>
    simp only [Operation.perform, Operation.cancel]
    split
    · exact H
    · exact same rfl rfl (fun _ => rfl) rfl rfl rfl rfl rfl
  | reserveEffect => exact H.setLedger fun _ h => .reserve h
  | bindRequest =>
    simp only [Operation.perform]
    split
    · exact H.setLedger fun _ h => .bind h
    · exact H
  | checkpointStart =>
    simp only [Operation.perform, Operation.checkpointStart]
    split
    · split
      · exact same rfl rfl (fun _ => rfl) rfl rfl rfl rfl rfl
      · exact H
      · next hq => exact absurd hq U.backend
    · exact H
  | beginEffect i =>
    simp only [Operation.perform]
    split
    · next h => exact H.setLedger fun _ hl => .begin h.2 hl
    · exact H
  | observe i effects =>
    simp only [Operation.perform]
    split
    · next h => exact H.ledger (.observe effects h)
    · exact H
  | pollOutcome =>
    simp only [Operation.perform, Operation.pollOutcome]
    split
    · split
      · exact H
      · exact H
      · next hq => exact absurd hq U.backend
    · exact H
  | dropAttempt i => exact H.ledger (.drop i)
  | advance =>
    simp only [Operation.perform, Operation.advance]
    split
    · split
      · exact H
      · split
        · exact H.advanceMemory
        · exact H.advanceDirect
        · next hq => exact absurd hq U.backend
    · exact H
  | pollAdvance =>
    simp only [Operation.perform, Operation.pollAdvance, U.gate]
    split
    · exact H
    · split
      · exact H
      · exact H.advanceMemory
      · next hq => exact absurd hq U.backend
  | retryAdvance =>
    simp only [Operation.perform, Operation.retryAdvance, U.gate, U.transition]
    exact H
  | prepareFinalization export_ business => exact H.prepareFinalization export_ business
  | pollFinalization =>
    simp only [Operation.perform, Operation.pollFinalization, U.gate, U.transition]
    split <;> exact H
  | takeFinalizationControl => exact H.takeFinalizationControl
  | prepareFinalizationOutcome result => exact H.prepareFinalizationOutcome result
  | prepareCompletion result effects => exact H.prepareCompletion result effects
  | pollCompletionCheckpoint =>
    simp only [Operation.perform, U.driveCompletionCheckpoint]
    exact H
  | publishCompletion => exact H.publishCompletion
  | retryCompletion =>
    simp only [Operation.perform, Operation.retryCompletion]
    split
    · exact H.retryCompletionMemory
    · exact H.retryCompletionDirect
    · next hq => exact absurd hq U.backend
  | pollCompletion => exact H.pollCompletion U
  | requestCheckpointRetry =>
    have : O.checkRetry w = .ok none := by
      simp only [checkRetry, U.gate, U.transition]
      split <;> rfl
    simp only [Operation.perform, Operation.requestCheckpointRetry, this]
    exact H
  | resume =>
    simp only [Operation.perform, Operation.resume, U.gate]
    exact H

end

theorem Upheld.runFrom (H : Upheld O fresh w) (U : Unqueued O w) (calls : List OperationCall) :
    Upheld O fresh (O.runFrom w calls) := by
  induction calls generalizing w with
  | nil => exact H
  | cons call calls ih => exact ih (H.perform U call) (U.perform call).unqueued

/-! ## Runs -/

theorem run_settled (O : Operation) (earlier : List JournalCall) (calls : List OperationCall) :
    (∀ s, (O.run earlier calls).Produced s → O.Settled s) ∧
    (O.Fresh earlier → ∀ r, O.stored (O.run earlier calls) = some r → r.reconciliation = none →
      O.Settled r.snapshot) := by
  have A : Aggregated O (O.new (WriterCenter.new (O.center.journal.run earlier))) := .new O _
  by_cases hq : O.backend = .queued
  · have I := Inv.start O earlier
    have A' : Aggregated O (O.run earlier calls) := A.moves (I.run_moves hq calls)
    refine ⟨A'.settled, fun hf r hr hn => ?_⟩
    rcases (Rows.run hq hf calls).row r hr hn with ⟨m, s, hlast, rfl⟩ | ⟨σ, c, hc, -, rfl⟩
    · exact A'.settled s (.acknowledged (x := (m, s)) (mem_of_getLast? hlast))
    · exact A'.settled c.snapshot (.retained hc)
  · have U : Unqueued O (O.new (WriterCenter.new (O.center.journal.run earlier))) :=
      ⟨hq, rfl, rfl, rfl, fun _ => rfl⟩
    have H : Upheld O (O.Fresh earlier) (O.new (WriterCenter.new (O.center.journal.run earlier))) := by
      refine ⟨A, ⟨0, .fetch, .new O.center _⟩, run_sound earlier, (fun x hx => nomatch hx), ?_⟩
      exact fun hf r hr => absurd (hf.symm.trans hr) nofun
    have H' : Upheld O (O.Fresh earlier) (O.run earlier calls) := H.runFrom U calls
    exact ⟨H'.aggregated.settled, H'.row⟩

/-- Reconciliation is sound, and no record is beyond it. An accepted attestation resolves exactly the
effects of its snapshot in their order, keeps every outcome and the aggregate that were known, and claims
the merge of what it resolves. Conversely every snapshot that an operation shows, retains or hands to its
history, and every record stored for it, has an accepted aggregate once its effects are resolved
consistently. -/
theorem reconciliation_sound (O : Operation) (earlier : List JournalCall) (calls : List OperationCall) :
    (∀ (r : OperationReconciliation) s, r.validate s = .ok () → r.Attests s) ∧
    (∀ s, (O.run earlier calls).Produced s → ∀ r : OperationReconciliation, r.Consistent s →
      ∃ aggregate, { r with effects := aggregate }.validate s = .ok ()) ∧
    (O.Fresh earlier → ∀ record, O.stored (O.run earlier calls) = some record →
      record.reconciliation = none → ∀ r : OperationReconciliation, r.Consistent record.snapshot →
        ∃ aggregate, { r with effects := aggregate }.validate record.snapshot = .ok ()) := by
  obtain ⟨hproduced, hstored⟩ := run_settled O earlier calls
  refine ⟨fun r s => attests_of_validate, fun s hs r => ?_, fun hf record hr hn r => ?_⟩
  · exact exists_aggregate (hproduced s hs).merged
  · exact exists_aggregate (hstored hf record hr hn).merged

end Operation

end LuaSkills.Embedded
