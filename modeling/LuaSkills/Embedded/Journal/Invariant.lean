import LuaSkills.Embedded.Journal.Store

/-!
# The store invariant

`Stored` relates a row to the record it encodes, with every relation `decode` demands between the
columns, the document and the reconciliation. A table is `Sound` when each row stores a record and
the count is within its limit. Each mutation body is a `Put` or a `Delete` of one key that refines
one `EvidenceStep`; both keep the table sound, so the decoder accepts whatever the journal wrote.
-/

namespace LuaSkills.Embedded

open AList Except

namespace OperationJournal
variable {J : OperationJournal} {key : JournalKey} {row : JournalRow} {r r' : JournalOperation}
variable {t t' : JournalTable}

structure Stored (J : OperationJournal) (key : JournalKey) (row : JournalRow)
    (r : JournalOperation) : Prop where
  row_eq : row = J.row r.revision (J.serde.encode r)
  key_ok : J.validateKey key = .ok ()
  runtime : r.runtimeId = key.1
  operation : r.snapshot.operationId = key.2
  size : (J.serde.encode r).length ≤ J.config.maxRecordBytes
  snapshotSize : J.serde.snapshotSize r.snapshot ≤ J.config.maxRecordBytes
  revision_pos : 0 < r.revision
  revision_le : r.revision ≤ maxRevision
  callers : validateCallers key.1 r.snapshot = .ok ()
  reconciled : ∀ c ∈ r.reconciliation, 2 ≤ r.revision ∧ c.validate r.snapshot = .ok () ∧
    J.serde.reconciliationSize c ≤ J.config.maxRecordBytes

/-- The record kept under `key`. -/
def record (J : OperationJournal) (t : JournalTable) (key : JournalKey) : Option JournalOperation :=
  (t.lookup key).bind fun row => J.serde.decode row.document

/-- Every row stores a record, and there are no more than allowed. -/
structure Sound (J : OperationJournal) (t : JournalTable) : Prop where
  stored : ∀ {key row}, t.lookup key = some row → ∃ r, J.Stored key row r
  size : t.size ≤ J.config.maxRecords

theorem encode_eq_ok : J.encode r = .ok document ↔
    J.validateKey (r.runtimeId, r.snapshot.operationId) = .ok () ∧
    (J.serde.encode r).length ≤ J.config.maxRecordBytes ∧ document = J.serde.encode r := by
  simp only [encode, jsonSize, bind_eq_ok, refuseIf_eq_ok]
  constructor
  · rintro ⟨_, hk, _, ⟨_, hs, _⟩, h⟩
    cases h
    exact ⟨hk, Nat.not_lt.1 hs, rfl⟩
  · rintro ⟨hk, hs, rfl⟩
    exact ⟨(), hk, _, ⟨(), Nat.not_lt.2 hs, rfl⟩, rfl⟩

theorem orCorrupt_eq_ok {α : Type} {x : EmbeddedResult α} {a : α} :
    orCorrupt x = .ok a ↔ x = .ok a := by
  cases x <;> simp [orCorrupt, Except.mapError]

namespace Stored
variable (H : J.Stored key row r)
include H

theorem document : row.document = J.serde.encode r := by rw [H.row_eq]; rfl

theorem serde_decode : J.serde.decode row.document = some r := by
  rw [H.document, J.serde.decode_encode]

theorem encode : J.encode r = .ok (J.serde.encode r) := by
  refine encode_eq_ok.2 ⟨?_, H.size, rfl⟩
  rw [H.runtime, H.operation]
  exact H.key_ok

/-- The decoder accepts what was stored. -/
theorem decode : J.decode key row = .ok r := by
  have hk := H.key_ok
  simp only [validateKey, bind_eq_ok, refuseIf_eq_ok, not_or] at hk
  obtain ⟨_, ⟨hk₁, hk₂⟩, _⟩ := hk
  have hrow := H.row_eq
  have hrev := H.revision_pos
  have hrc := H.reconciled
  simp only [OperationJournal.decode, bind_eq_ok, refuseIf_eq_ok, okOr_eq_ok,
    orCorrupt_eq_ok]
  refine ⟨(), by rw [H.document]; exact Nat.not_lt.2 H.size, (), by simp [hrow, OperationJournal.row],
    r, H.serde_decode, (), ?_, (), H.callers, ?_⟩
  · rw [hrow]
    simp only [OperationJournal.row, H.runtime, H.operation, ne_eq, not_true_eq_false, not_or,
      or_false, not_false_eq_true, true_and]
    exact ⟨hk₁, hk₂, by omega⟩
  · cases hc : r.reconciliation with
    | none => rfl
    | some c =>
      obtain ⟨h2, hv, -⟩ := hrc c hc
      simp only [bind_eq_ok, refuseIf_eq_ok, orCorrupt_eq_ok]
      exact ⟨(), Nat.not_lt.2 h2, (), hv, rfl⟩

end Stored

namespace Sound
variable (H : J.Sound t)
include H

theorem record_stored (h : J.record t key = some r) :
    ∃ row, t.lookup key = some row ∧ J.Stored key row r := by
  obtain ⟨row, hl, hd⟩ := Option.bind_eq_some_iff.1 h
  obtain ⟨r₀, hs⟩ := H.stored hl
  obtain rfl : r₀ = r := Option.some.inj (hs.serde_decode.symm.trans hd)
  exact ⟨row, hl, hs⟩

theorem record_none (h : J.record t key = none) : key ∉ t := by
  intro hm
  obtain ⟨row, hl⟩ := mem_iff_lookup.1 hm
  obtain ⟨r, hs⟩ := H.stored hl
  simp [record, hl, hs.serde_decode] at h

theorem read : J.read t key = .ok (J.record t key) := by
  unfold OperationJournal.read record
  cases hl : t.lookup key with
  | none => rfl
  | some row =>
    obtain ⟨r, hs⟩ := H.stored hl
    simp only [hs.decode, Option.bind_some, hs.serde_decode]
    rfl

theorem validateContents : J.validateContents t = .ok () := by
  unfold OperationJournal.validateContents
  rw [refuseIf_of_not (Nat.not_lt.2 H.size), ok_bind]
  refine forM_eq_ok fun e he => ?_
  obtain ⟨r, hs⟩ := H.stored (mem_entries_iff.1 he)
  rw [hs.decode]
  rfl

end Sound

theorem Sound.empty : J.Sound ∅ := ⟨fun h => (by cases h), Nat.zero_le _⟩

/-! ## Mutations refine evidence steps -/

/-- The table after storing `r'` under `key`. -/
structure Put (J : OperationJournal) (key : JournalKey) (t t' : JournalTable)
    (r' : JournalOperation) : Prop where
  eq : t' = t.insert key (J.row r'.revision (J.serde.encode r'))
  stored : J.Stored key (J.row r'.revision (J.serde.encode r')) r'
  step : EvidenceStep (J.record t key) (some r')
  room : J.record t key = none → t.size < J.config.maxRecords

/-- The table after deleting `key`. -/
structure Delete (J : OperationJournal) (key : JournalKey) (t t' : JournalTable) : Prop where
  eq : t' = t.erase key
  step : EvidenceStep (J.record t key) none

theorem Put.sound (h : J.Put key t t' r') (H : J.Sound t) : J.Sound t' where
  stored {k w} hl := by
    rw [h.eq, lookup_insert_eq] at hl
    split at hl
    · next e =>
      cases hl
      exact e ▸ ⟨r', h.stored⟩
    · exact H.stored hl
  size := by
    rw [h.eq]
    cases hr : J.record t key with
    | none =>
      rw [size_insert_of_notMem (H.record_none hr)]
      exact h.room hr
    | some r =>
      obtain ⟨row, hl, -⟩ := H.record_stored hr
      rw [size_insert_of_lookup hl]
      exact H.size

theorem Put.record_self (h : J.Put key t t' r') : J.record t' key = some r' := by
  rw [record, h.eq, lookup_insert]
  exact h.stored.serde_decode

theorem Put.lookup_ne (h : J.Put key t t' r') (hk : k ≠ key) : t'.lookup k = t.lookup k := by
  rw [h.eq, lookup_insert_ne hk]

theorem Delete.sound (h : J.Delete key t t') (H : J.Sound t) : J.Sound t' where
  stored {k w} hl := by
    rw [h.eq, lookup_erase_eq] at hl
    split at hl
    · cases hl
    · exact H.stored hl
  size := by
    rw [h.eq]
    refine le_trans ?_ H.size
    exact (List.kerase_sublist key t.entries).length_le

theorem Delete.lookup_ne (h : J.Delete key t t') (hk : k ≠ key) : t'.lookup k = t.lookup k := by
  rw [h.eq, lookup_erase_ne hk]

theorem Delete.record_self (h : J.Delete key t t') : J.record t' key = none := by
  rw [record, h.eq, lookup_erase]
  rfl

theorem successor_eq_ok (h : successor previous = .ok n) :
    0 < n ∧ n ≤ maxRevision ∧ n = previous.getD 0 + 1 := by
  cases previous with
  | none =>
    cases h
    exact ⟨Nat.one_pos, by decide, rfl⟩
  | some p =>
    simp only [successor] at h
    split at h
    · next hp =>
      cases h
      exact ⟨Nat.succ_pos _, by omega, rfl⟩
    · cases h

theorem committedBy_eq_true {reconcile : Bool} {current : Option JournalOperation}
    (h : J.committedBy reconcile current r.revision (J.serde.encode r) = .ok true) :
    current = some r := by
  unfold committedBy at h
  split at h
  · next c =>
    split at h
    · obtain ⟨d, hd, he⟩ := bind_eq_ok.1 h
      rw [(encode_eq_ok.1 hd).2.2] at he
      rw [Serde.encode_inj (of_decide_eq_true (ok.inj he))]
    · cases h
  · cases h

/-- A write that returns has stored its record, now or before. -/
theorem writeMutation_ok (H : J.Sound t) {previous : Option ℕ} {document : List UInt8}
    {reconcile : Bool} (hr : J.Stored (r.runtimeId, r.snapshot.operationId)
      (J.row r.revision (J.serde.encode r)) r)
    (hn : r.reconciliation = none) (hp : r.revision = previous.getD 0 + 1)
    (hd : document = J.serde.encode r)
    (h : J.writeMutation previous r document reconcile t = .ok t') :
    t' = t ∧ J.record t (r.runtimeId, r.snapshot.operationId) = some r ∨
      J.Put (r.runtimeId, r.snapshot.operationId) t t' r := by
  subst hd
  simp only [writeMutation, H.read, ok_bind] at h
  obtain ⟨done, hdone, h⟩ := bind_eq_ok.1 h
  cases done with
  | true =>
    left
    cases h
    refine ⟨rfl, ?_⟩
    exact committedBy_eq_true hdone
  | false =>
    right
    simp only [Bool.false_eq_true, if_false] at h
    cases previous with
    | none =>
      simp only [bind_eq_ok, refuseIf_eq_ok] at h
      obtain ⟨_, hc, _, hroom, h⟩ := h
      cases h
      have hc : J.record t (r.runtimeId, r.snapshot.operationId) = none := by simpa using hc
      refine ⟨rfl, hr, ?_, fun _ => Nat.not_le.1 hroom⟩
      rw [hc]
      exact .insert hp hn
    | some p =>
      simp only [bind_eq_ok, refuseIf_eq_ok, okOr_eq_ok, not_not] at h
      obtain ⟨c, hc, _, hrev, _, hctx, _, hfin, _, hrec, h⟩ := h
      cases h
      refine ⟨rfl, hr, ?_, fun hnone => by simp [hc] at hnone⟩
      rw [hc]
      refine .replace ?_ hctx.symm ?_ (by simpa using hrec) hn
      · rw [hp, hrev]
        rfl
      · exact OperationSnapshot.validateFinalizationSuccessor_eq_ok.1 hfin

/-- An attestation that returns is stored, now or before. -/
theorem reconcileMutation_ok (H : J.Sound t) {expected : ℕ}
    (hs : J.serde.reconciliationSize resolution ≤ J.config.maxRecordBytes)
    (he : ¬ (expected = 0 ∨ expected ≥ maxRevision))
    (h : J.reconcileMutation key expected resolution t = .ok t') :
    ∃ r, r.revision = expected + 1 ∧ r.reconciliation = some resolution ∧
      (t' = t ∧ J.record t key = some r ∨ J.Put key t t' r) := by
  simp only [reconcileMutation, H.read, ok_bind] at h
  obtain ⟨c, hc, h⟩ := bind_eq_ok.1 h
  rw [okOr_eq_ok] at hc
  obtain ⟨row, -, hst⟩ := H.record_stored hc
  split at h
  · next hdone =>
    cases h
    exact ⟨c, hdone.1, hdone.2, .inl ⟨rfl, hc⟩⟩
  · simp only [bind_eq_ok, refuseIf_eq_ok, encode_eq_ok, not_not] at h
    obtain ⟨_, hrev, _, hrec, _, hval, _, ⟨hk, hsize, rfl⟩, h⟩ := h
    cases h
    have hnone : c.reconciliation = none := by simpa using hrec
    have hmax : expected + 1 ≤ maxRevision := by omega
    have htwo : 2 ≤ expected + 1 := by omega
    refine ⟨{ c with revision := expected + 1, reconciliation := some resolution }, rfl, rfl,
      .inr ⟨rfl, ?_, ?_, fun hn => by simp [hc] at hn⟩⟩
    · refine ⟨rfl, hst.key_ok, hst.runtime, hst.operation, hsize, hst.snapshotSize,
        Nat.succ_pos _, hmax, hst.callers, fun d hd => ?_⟩
      cases hd
      exact ⟨htwo, hval, hs⟩
    · rw [hc, ← hrev]
      exact .attest resolution hnone

theorem forgetMutation_ok (H : J.Sound t) (h : J.forgetMutation key expected t = .ok t') :
    J.Delete key t t' := by
  simp only [forgetMutation, H.read, ok_bind, bind_eq_ok, refuseIf_eq_ok,
    okOr_eq_ok, not_not] at h
  obtain ⟨c, hc, _, _, _, hres, h⟩ := h
  cases h
  exact ⟨rfl, hc ▸ .delete hres⟩

/-! ## Transactions -/

section
variable (s : JournalState) (faults : TransactionFaults)
variable (mutation : JournalTable → EmbeddedResult JournalTable)

/-- Whatever SQLite does, the table is the old one or the one the mutation returned. -/
theorem transaction_table : (transaction s faults mutation).1.table = s.table ∨
    mutation s.table = .ok (transaction s faults mutation).1.table := by
  unfold transaction
  split
  · exact .inl rfl
  · exact .inl rfl
  · split
    · next table ht =>
      have hm : mutation s.table = .ok table := by
        unfold TransactionFaults.through at ht
        split at ht
        · cases ht
        · exact ht
      split
      · exact .inr hm
      · next applied _ =>
        cases applied with
        | true => exact .inr hm
        | false => exact .inl rfl
    · split <;> exact .inl rfl

variable {s faults mutation}

theorem transaction_ok (h : (transaction s faults mutation).2 = .ok ()) :
    mutation s.table = .ok (transaction s faults mutation).1.table := by
  unfold transaction at h ⊢
  split at h
  · cases h
  · cases h
  · split at h
    · next table ht =>
      split at h
      · unfold TransactionFaults.through at ht
        split at ht
        · cases ht
        · simp only [ht]
      · cases h
    · split at h <;> cases h

theorem transaction_none (hf : s.failure = none) (hc : s.connected = true)
    (h : mutation s.table = .ok table) : transaction s .none mutation = ({ s with table }, .ok ()) := by
  simp [transaction, lock, hf, hc, TransactionFaults.none, TransactionFaults.through, h]

end

end OperationJournal

end LuaSkills.Embedded
