import LuaSkills.Embedded.Journal.Invariant
import LuaSkills.Embedded.Journal.Tabulated

/-!
# Runs of the journal

Every call refines at most one `EvidenceStep`, of the key it names, and deletes only when it is a
`forget` (`perform_effect`). Over a run the table therefore stays sound, and between two deletions of
a key all records found under it belong to one lineage (`runFrom_extends`).
-/

namespace LuaSkills.Embedded

open List Except

variable {call : JournalCall} {t t' : JournalTable} {previous : Option ℕ}

/-- The call deletes evidence of `key` when it succeeds. -/
def JournalCall.forgets (key : JournalKey) : JournalCall → Bool
  | .forget k _ _ => k = key
  | _ => false

def JournalCall.attests (key : JournalKey) : JournalCall → Bool
  | .reconcile k _ _ _ => k = key
  | _ => false

/-- What a write stores: a snapshot or an attestation. -/
inductive JournalContent where
  | snapshot (snapshot : OperationSnapshot)
  | attestation (resolution : OperationReconciliation)

/-- The key, the successor revision and the content of a call that writes. -/
def JournalCall.write? : JournalCall → Option (JournalKey × ℕ × JournalContent)
  | .writeCheckpoint runtimeId previous snapshot _ _ =>
    some ((runtimeId, snapshot.operationId), previous.getD 0 + 1, .snapshot snapshot)
  | .reconcile key expected resolution _ => some (key, expected + 1, .attestation resolution)
  | _ => none

def JournalOperation.Holds (r : JournalOperation) : JournalContent → Prop
  | .snapshot snapshot => r.snapshot = snapshot ∧ r.reconciliation = none
  | .attestation resolution => r.reconciliation = some resolution

theorem JournalOperation.Holds.unique {r : JournalOperation} (h : r.Holds c) (h' : r.Holds c') :
    c = c' := by
  cases c with
  | snapshot s =>
    cases c' with
    | snapshot s' => rw [← h.1, ← h'.1]
    | attestation a' => exact nomatch h.2.symm.trans h'
  | attestation a =>
    cases c' with
    | snapshot s' => exact nomatch h.symm.trans h'.2
    | attestation a' => rw [Option.some.inj (h.symm.trans h')]

namespace OperationJournal
variable {J : OperationJournal} {s : JournalState} {key : JournalKey} {r : JournalOperation}

/-! ## One call -/

inductive Effect (J : OperationJournal) (call : JournalCall) (t t' : JournalTable) : Prop
  | none : t' = t → Effect J call t t'
  | put {key : JournalKey} {r' : JournalOperation} : J.Put key t t' r' →
    call.forgets key = false → Effect J call t t'
  | delete {key : JournalKey} : J.Delete key t t' → call.forgets key → Effect J call t t'

theorem Effect.sound (h : J.Effect call t t')
    (H : J.Sound t) : J.Sound t' := by
  cases h with
  | none h => exact h ▸ H
  | put h | delete h => exact h.sound H

/-- A key other than the one named is not touched; the named key makes one step. -/
theorem Effect.lookup (h : J.Effect call t t')
    (key : JournalKey) : t'.lookup key = t.lookup key ∨
      EvidenceStep (J.record t key) (J.record t' key) ∧
        (J.record t' key = .none → call.forgets key) := by
  cases h with
  | none h => exact .inl (h ▸ rfl)
  | @put k r' h hf =>
    by_cases hk : key = k
    · subst hk
      exact .inr ⟨h.record_self ▸ h.step, fun e => nomatch h.record_self.symm.trans e⟩
    · exact .inl (h.lookup_ne hk)
  | @delete k h hf =>
    by_cases hk : key = k
    · subst hk
      exact .inr ⟨h.record_self ▸ h.step, fun _ => hf⟩
    · exact .inl (h.lookup_ne hk)

/-- What a write has checked before its transaction starts. -/
theorem prepareWrite_ok (h : J.prepareWrite runtimeId previous snapshot = .ok (r, document)) :
    r.runtimeId = runtimeId ∧ r.snapshot = snapshot ∧ r.reconciliation = none ∧
    r.revision = previous.getD 0 + 1 ∧ document = J.serde.encode r ∧
    J.Stored (r.runtimeId, r.snapshot.operationId) (J.row r.revision (J.serde.encode r)) r := by
  simp only [prepareWrite, jsonSize, bind_eq_ok, refuseIf_eq_ok, encode_eq_ok] at h
  obtain ⟨_, hk, _, hc, _, ⟨_, hs, _⟩, n, hn, _, ⟨_, hsize, rfl⟩, h⟩ := h
  cases h
  obtain ⟨hpos, hmax, hrev⟩ := successor_eq_ok hn
  exact ⟨rfl, rfl, rfl, hrev, rfl, rfl, hk, rfl, rfl, hsize, Nat.not_lt.1 hs, hpos, hmax, hc,
    fun _ h => by cases h⟩

theorem prepareReconcile_ok (h : J.prepareReconcile key expected resolution = .ok ()) :
    J.serde.reconciliationSize resolution ≤ J.config.maxRecordBytes ∧
    ¬ (expected = 0 ∨ expected ≥ maxRevision) := by
  simp only [prepareReconcile, jsonSize, bind_eq_ok, refuseIf_eq_ok] at h
  obtain ⟨_, _, _, ⟨_, hs, _⟩, he⟩ := h
  exact ⟨Nat.not_lt.1 hs, he⟩

theorem map_eq_ok {α β : Type} {x : EmbeddedResult α} {f : α → β} {b : β} :
    x.map f = .ok b ↔ ∃ a, x = .ok a ∧ f a = b := by
  cases x <;> simp [Except.map]

/-- The record that a write stores. -/
def candidate (runtimeId : String) (previous : Option ℕ) (snapshot : OperationSnapshot) :
    JournalOperation := ⟨runtimeId, previous.getD 0 + 1, snapshot, none⟩

/-- A write stores its candidate or nothing; a successful one has it stored. -/
theorem writeCheckpoint_effect (H : J.Sound s.table) (runtimeId : String) (previous : Option ℕ)
    (snapshot : OperationSnapshot) (reconcile : Bool) (faults : TransactionFaults) :
    let x := J.writeCheckpoint s runtimeId previous snapshot reconcile faults
    (x.1.table = s.table ∨ J.Put (runtimeId, snapshot.operationId) s.table x.1.table
      (candidate runtimeId previous snapshot)) ∧
    ∀ r, x.2 = .ok r → r = candidate runtimeId previous snapshot ∧
      J.record x.1.table (runtimeId, snapshot.operationId) = some r := by
  simp only [writeCheckpoint, guarded]
  cases hp : J.prepareWrite runtimeId previous snapshot with
  | error e => exact ⟨.inl rfl, fun _ h => nomatch h⟩
  | ok p =>
    obtain ⟨r, document⟩ := p
    obtain ⟨hrt, hsn, hn, hrev, hd, hst⟩ := prepareWrite_ok hp
    have hr : candidate runtimeId previous snapshot = r := by
      rw [candidate, ← hrt, ← hrev, ← hsn, ← hn]
    rw [← hrt, ← hsn] at hr ⊢
    rw [hr]
    refine ⟨?_, fun r' h => ?_⟩
    · rcases transaction_table s faults (J.writeMutation previous r document reconcile) with h | h
      · exact .inl h
      · rcases writeMutation_ok H hst hn hrev hd h with ⟨h, -⟩ | h
        · exact .inl h
        · exact .inr h
    · obtain ⟨_, ht, rfl⟩ := map_eq_ok.1 h
      refine ⟨rfl, ?_⟩
      have h := transaction_ok ht
      rcases writeMutation_ok H hst hn hrev hd h with ⟨he, h⟩ | h
      · exact he ▸ h
      · exact h.record_self

/-- The effect of a call, and the record a successful write leaves behind. -/
theorem perform_effect (H : J.Sound s.table) (call : JournalCall) :
    J.Effect call s.table (J.perform s call).1.table ∧
    ∀ k n c, call.write? = some (k, n, c) → (J.perform s call).2 = .ok () →
      ∃ r, J.record (J.perform s call).1.table k = some r ∧ r.revision = n ∧ r.Holds c := by
  cases call with
  | writeCheckpoint runtimeId previous snapshot reconcile faults =>
    obtain ⟨htable, hok⟩ := writeCheckpoint_effect H runtimeId previous snapshot reconcile faults
    refine ⟨?_, fun k n c hw h => ?_⟩
    · rcases htable with h | h
      · exact .none h
      · exact .put h rfl
    · cases hw
      obtain ⟨r, h, -⟩ := map_eq_ok.1 h
      obtain ⟨rfl, hr⟩ := hok r h
      exact ⟨_, hr, rfl, rfl, rfl⟩
  | reconcile key expected resolution faults =>
    simp only [perform, OperationJournal.reconcile, guarded]
    cases hp : J.prepareReconcile key expected resolution with
    | error e => exact ⟨.none rfl, fun _ _ _ _ h => nomatch h⟩
    | ok _ =>
      obtain ⟨hs, he⟩ := prepareReconcile_ok hp
      refine ⟨?_, fun k n c hw h => ?_⟩
      · rcases transaction_table s faults (J.reconcileMutation key expected resolution) with h | h
        · exact .none h
        · obtain ⟨r, -, -, ⟨h, -⟩ | h⟩ := reconcileMutation_ok H hs he h
          · exact .none h
          · exact .put h rfl
      · cases hw
        obtain ⟨_, h, -⟩ := map_eq_ok.1 h
        obtain ⟨_, h, -⟩ := map_eq_ok.1 h
        have h := transaction_ok h
        obtain ⟨r, hr, hc, ⟨hq, h⟩ | h⟩ := reconcileMutation_ok H hs he h
        · exact ⟨r, hq ▸ h, hr, hc⟩
        · exact ⟨r, h.record_self, hr, hc⟩
  | forget key expected faults =>
    refine ⟨?_, fun _ _ _ h => nomatch h⟩
    simp only [perform, forget, guarded]
    cases J.validateKey key with
    | error e => exact .none rfl
    | ok _ =>
      rcases transaction_table s faults (J.forgetMutation key expected) with h | h
      · exact .none h
      · exact .delete (forgetMutation_ok H h) (decide_eq_true rfl)
  | recoverStorage faults =>
    refine ⟨.none ?_, fun _ _ _ h => nomatch h⟩
    simp only [perform, recoverStorage]
    split
    · rfl
    · split
      · rfl
      · split <;> rfl

theorem Put.record_ne (h : J.Put key t t' r) (hk : k ≠ key) : J.record t' k = J.record t k := by
  rw [record, record, h.lookup_ne hk]

/-- Without a write of its checkpoint a record is kept, attested or deleted. -/
theorem perform_record (H : J.Sound s.table)
    (hk : ∀ k n c, call.write? = some (k, n, .snapshot c) → key ≠ k) :
    J.record (J.perform s call).1.table key = J.record s.table key ∨
      call.attests key ∧
        (∃ r, J.record (J.perform s call).1.table key = some r ∧ r.reconciliation.isSome) ∨
      call.forgets key ∧ J.record (J.perform s call).1.table key = none := by
  cases call with
  | writeCheckpoint runtimeId previous snapshot reconcile faults =>
    have hne := hk _ _ _ rfl
    rcases (writeCheckpoint_effect H runtimeId previous snapshot reconcile faults).1 with h | h
    · exact .inl (congrArg (J.record · key) h)
    · exact .inl (h.record_ne hne)
  | reconcile k expected resolution faults =>
    simp only [perform, OperationJournal.reconcile, guarded]
    cases hp : J.prepareReconcile k expected resolution with
    | error e => exact .inl rfl
    | ok _ =>
      obtain ⟨hs, he⟩ := prepareReconcile_ok hp
      rcases transaction_table s faults (J.reconcileMutation k expected resolution) with h | h
      · exact .inl (congrArg (J.record · key) h)
      · obtain ⟨r, -, hr, ⟨h, -⟩ | h⟩ := reconcileMutation_ok H hs he h
        · exact .inl (congrArg (J.record · key) h)
        · by_cases hkey : key = k
          · subst hkey
            exact .inr (.inl ⟨decide_eq_true rfl, r, h.record_self, by rw [hr]; rfl⟩)
          · exact .inl (h.record_ne hkey)
  | forget k expected faults =>
    simp only [perform, forget, guarded]
    cases J.validateKey k with
    | error e => exact .inl rfl
    | ok _ =>
      rcases transaction_table s faults (J.forgetMutation k expected) with h | h
      · exact .inl (congrArg (J.record · key) h)
      · have hd := forgetMutation_ok H h
        by_cases hkey : key = k
        · subst hkey
          exact .inr (.inr ⟨decide_eq_true rfl, hd.record_self⟩)
        · refine .inl ?_
          rw [record, record, hd.lookup_ne hkey]
  | recoverStorage faults =>
    refine .inl (congrArg (J.record · key) ?_)
    simp only [perform, recoverStorage]
    split
    · rfl
    · split
      · rfl
      · split <;> rfl

/-! ## Whole runs -/

theorem runFrom_sound (H : J.Sound s.table) (calls : List JournalCall) :
    J.Sound (J.runFrom s calls).table := by
  induction calls generalizing s with
  | nil => exact H
  | cons call calls ih => exact ih ((perform_effect H call).1.sound H)

theorem run_sound (calls : List JournalCall) : J.Sound (J.run calls).table :=
  runFrom_sound .empty calls

/-- Until `key` is forgotten its records form one lineage; a reconciled row stays as it is. -/
theorem runFrom_extends (H : J.Sound s.table) (calls : List JournalCall)
    (hf : ∀ call ∈ calls, call.forgets key = false) (h : J.record s.table key = some r) :
    ∃ r', J.record (J.runFrom s calls).table key = some r' ∧ r.Extends r' ∧
      (r.reconciliation.isSome →
        (J.runFrom s calls).table.lookup key = s.table.lookup key) := by
  induction calls generalizing s r with
  | nil => exact ⟨r, h, .refl r, fun _ => rfl⟩
  | cons call calls ih =>
    have hE := (perform_effect H call).1
    have H' := hE.sound H
    have hc := hf call mem_cons_self
    have hrest := fun c hc => hf c (mem_cons_of_mem _ hc)
    rcases hE.lookup key with he | ⟨he, hd⟩
    · obtain ⟨r', hr', hx, hl⟩ := ih H' hrest (r := r) (by rw [record, he]; exact h)
      exact ⟨r', hr', hx, fun hr => (hl hr).trans he⟩
    · cases hr₁ : J.record (J.perform s call).1.table key with
      | none => rw [hd hr₁] at hc; cases hc
      | some r₁ =>
        rw [h, hr₁] at he
        have hx₁ := JournalOperation.Extends.of_step he
        obtain ⟨r', hr', hx, -⟩ := ih H' hrest hr₁
        refine ⟨r', hr', hx₁.trans hx, fun hr => ?_⟩
        -- a reconciled record makes no step
        cases he with
        | replace _ _ _ hn | attest _ hn => rw [hn] at hr; cases hr

/-! ## Identical retries -/

/-- Repeating the write of a stored candidate finds it committed. -/
theorem writeMutation_retry (H : J.Sound s.table) (previous : Option ℕ)
    (h : J.record s.table (r.runtimeId, r.snapshot.operationId) = some r) :
    J.writeMutation previous r (J.serde.encode r) true s.table = .ok s.table := by
  obtain ⟨row, -, hst⟩ := H.record_stored h
  simp only [writeMutation, H.read, ok_bind, h, committedBy, if_true, hst.encode]
  simp [pure_eq_ok, ok_bind]

theorem prepareWrite_of_stored {row : JournalRow}
    (hst : J.Stored (r.runtimeId, r.snapshot.operationId) row r) (hn : r.reconciliation = none)
    (hp : previous ≠ some 0) (hr : r.revision = previous.getD 0 + 1) :
    J.prepareWrite r.runtimeId previous r.snapshot = .ok (r, J.serde.encode r) := by
  have hs : successor previous = .ok r.revision := by
    cases previous with
    | none => rw [hr]; rfl
    | some p =>
      have hmax := hst.revision_le
      have hpos : p ≠ 0 := fun h => hp (h ▸ rfl)
      simp only [Option.getD_some] at hr
      rw [successor, if_pos (by omega), hr]
  have hrec : (⟨r.runtimeId, r.revision, r.snapshot, none⟩ : JournalOperation) = r := by
    rw [← hn]
  simp only [prepareWrite, jsonSize, bind_eq_ok, refuseIf_eq_ok]
  exact ⟨(), hst.key_ok, (), hst.callers, _, ⟨(), Nat.not_lt.2 hst.snapshotSize, rfl⟩, _, hs, _,
    hrec ▸ hst.encode, by rw [hrec]; rfl⟩

/-- A byte-identical retry with `reconcile` set changes nothing, and reports the committed revision
unless SQLite interferes. -/
theorem writeCheckpoint_retry (H : J.Sound s.table) (hp : previous ≠ some 0)
    (h : J.record s.table (r.runtimeId, r.snapshot.operationId) = some r)
    (hn : r.reconciliation = none) (hr : r.revision = previous.getD 0 + 1) :
    (∀ faults, (J.writeCheckpoint s r.runtimeId previous r.snapshot true faults).1.table =
      s.table) ∧
    (s.failure = none → s.connected = true →
      J.writeCheckpoint s r.runtimeId previous r.snapshot true .none = (s, .ok r)) := by
  obtain ⟨row, -, hst⟩ := H.record_stored h
  have hm := writeMutation_retry H previous h
  simp only [writeCheckpoint, prepareWrite_of_stored hst hn hp hr, guarded]
  refine ⟨fun faults => ?_, fun hf hc => ?_⟩
  · rcases transaction_table s faults (J.writeMutation previous r (J.serde.encode r) true) with h | h
    · exact h
    · exact ok.inj (h.symm.trans hm)
  · rw [transaction_none hf hc hm]
    rfl

/-- An identical attestation changes nothing and reports the committed revision. -/
theorem reconcile_retry (H : J.Sound s.table) (h : J.record s.table key = some r)
    (hr : r.revision = expected + 1) (hc : r.reconciliation = some resolution) :
    (∀ faults, (J.reconcile s key expected resolution faults).1.table = s.table) ∧
    (s.failure = none → s.connected = true →
      J.reconcile s key expected resolution .none = (s, .ok (expected + 1))) := by
  obtain ⟨row, -, hst⟩ := H.record_stored h
  obtain ⟨htwo, -, hsize⟩ := hst.reconciled resolution hc
  have hmax := hst.revision_le
  have hprep : J.prepareReconcile key expected resolution = .ok () := by
    simp only [prepareReconcile, jsonSize, bind_eq_ok, refuseIf_eq_ok]
    exact ⟨(), hst.key_ok, _, ⟨(), Nat.not_lt.2 hsize, rfl⟩, by omega⟩
  have hm : J.reconcileMutation key expected resolution s.table = .ok s.table := by
    simp only [reconcileMutation, H.read, ok_bind, h, okOr_some, if_pos (And.intro hr hc)]
    rfl
  simp only [OperationJournal.reconcile, hprep, guarded]
  refine ⟨fun faults => ?_, fun hf hc => ?_⟩
  · rcases transaction_table s faults (J.reconcileMutation key expected resolution) with h | h
    · exact h
    · exact ok.inj (h.symm.trans hm)
  · rw [transaction_none hf hc hm]
    rfl

/-! ## The store -/

theorem Sound.read_eq_some (H : J.Sound t) :
    J.read t key = .ok (some r) ↔ J.record t key = some r := by
  rw [H.read, ok.injEq]

/-- Two successful writes of one successor revision store the same content, unless the key was
forgotten in between. -/
theorem writes_agree (H : J.Sound s.table) {first second : JournalCall} {between : List JournalCall}
    (h₁ : first.write? = some (key, n, c)) (h₂ : second.write? = some (key, n, c'))
    (hf : ∀ call ∈ between, call.forgets key = false) (hok₁ : (J.perform s first).2 = .ok ())
    (hok₂ : (J.perform (J.runFrom (J.perform s first).1 between) second).2 = .ok ()) : c = c' := by
  obtain ⟨r₁, hr₁, hn₁, hc₁⟩ := (perform_effect H first).2 key n c h₁ hok₁
  have H₁ := (perform_effect H first).1.sound H
  have H₂ := runFrom_sound H₁ between
  obtain ⟨r₂, hr₂, hn₂, hc₂⟩ := (perform_effect H₂ second).2 key n c' h₂ hok₂
  have hs : second.forgets key = false := by
    cases second with
    | forget => cases h₂
    | _ => rfl
  -- the second record belongs to the lineage of the first and has its revision
  obtain ⟨r, hr, hx, -⟩ := runFrom_extends H₁ (between ++ [second])
    (fun call hc => (mem_append.1 hc).elim (hf call) fun h => mem_singleton.1 h ▸ hs) hr₁
  rw [runFrom, foldl_append] at hr
  obtain rfl : r = r₂ := Option.some.inj (hr.symm.trans hr₂)
  rw [hx.eq_of_revision (hn₂.trans hn₁.symm)] at hc₂
  exact hc₁.unique hc₂

/-- After every sequence of calls, lost confirmations and recoveries included: every row decodes, so
opening and recovering accept the table; the count is within its limit; a call leaves a key's row, or
raises its revision by one, or forgets it; identical retries change nothing and report the committed
revision; two writes of one revision agree until the key is forgotten; and until then context and
finalization evidence stay, and a reconciled row does not change. -/
theorem run_store (J : OperationJournal) (calls : List JournalCall) :
    let s := J.run calls
    (∀ key row, s.table.lookup key = some row → ∃ r, J.decode key row = .ok r) ∧
    J.validateContents s.table = .ok () ∧
    (s.failure.isSome → (J.recoverStorage s .none).2 = .ok true) ∧
    s.table.size ≤ J.config.maxRecords ∧
    (∀ call key, (J.perform s call).1.table.lookup key = s.table.lookup key ∨
      (∃ o r', J.read s.table key = .ok o ∧
        J.read (J.perform s call).1.table key = .ok (some r') ∧
        r'.revision = (o.map JournalOperation.revision).getD 0 + 1) ∨
      ((J.perform s call).1.table.lookup key = none ∧ call.forgets key)) ∧
    (∀ runtimeId previous snapshot, previous ≠ some 0 →
      J.read s.table (runtimeId, snapshot.operationId) =
        .ok (some ⟨runtimeId, previous.getD 0 + 1, snapshot, none⟩) →
      (∀ faults, (J.writeCheckpoint s runtimeId previous snapshot true faults).1.table = s.table) ∧
      (s.failure = none → s.connected = true →
        J.writeCheckpoint s runtimeId previous snapshot true .none =
          (s, .ok ⟨runtimeId, previous.getD 0 + 1, snapshot, none⟩))) ∧
    (∀ key r expected resolution, J.read s.table key = .ok (some r) → r.revision = expected + 1 →
      r.reconciliation = some resolution →
      (∀ faults, (J.reconcile s key expected resolution faults).1.table = s.table) ∧
      (s.failure = none → s.connected = true →
        J.reconcile s key expected resolution .none = (s, .ok (expected + 1)))) ∧
    (∀ first between second key n c c', first.write? = some (key, n, c) →
      second.write? = some (key, n, c') → (∀ call ∈ between, call.forgets key = false) →
      (J.perform s first).2 = .ok () →
      (J.perform (J.runFrom (J.perform s first).1 between) second).2 = .ok () → c = c') ∧
    (∀ key r later, J.read s.table key = .ok (some r) →
      (∀ call ∈ later, call.forgets key = false) →
      ∃ r', J.read (J.runFrom s later).table key = .ok (some r') ∧
        r'.snapshot.context = r.snapshot.context ∧ r.snapshot.KeepsFinalization r'.snapshot ∧
        (r.reconciliation.isSome →
          (J.runFrom s later).table.lookup key = s.table.lookup key)) := by
  intro s
  have H : J.Sound s.table := run_sound calls
  refine ⟨fun key row h => ?_, H.validateContents, fun h => ?_, H.size, fun call key => ?_,
    fun runtimeId previous snapshot hp h => ?_, fun key r expected resolution h hr hc => ?_,
    fun first between second key n c c' h₁ h₂ hf => writes_agree H h₁ h₂ hf,
    fun key r later h hf => ?_⟩
  · obtain ⟨r, hs⟩ := H.stored h
    exact ⟨r, hs.decode⟩
  · obtain ⟨e, he⟩ := Option.isSome_iff_exists.1 h
    simp [recoverStorage, he, RecoveryFaults.none, H.validateContents]
  · have hE := (perform_effect H call).1
    rcases hE.lookup key with he | ⟨he, hd⟩
    · exact .inl he
    · cases hr : J.record (J.perform s call).1.table key with
      | none =>
        refine .inr (.inr ⟨?_, hd hr⟩)
        exact AList.lookup_eq_none.2 ((hE.sound H).record_none hr)
      | some r' =>
        rw [hr] at he
        exact .inr (.inl ⟨_, r', H.read, (hE.sound H).read_eq_some.2 hr, he.revision⟩)
  · exact writeCheckpoint_retry (r := ⟨runtimeId, previous.getD 0 + 1, snapshot, none⟩) H hp
      (H.read_eq_some.1 h) rfl rfl
  · exact reconcile_retry H (H.read_eq_some.1 h) hr hc
  · obtain ⟨r', hr', hx, hl⟩ := runFrom_extends H later hf (H.read_eq_some.1 h)
    exact ⟨r', (runFrom_sound H later).read_eq_some.2 hr', hx.context, hx.finalization, hl⟩

/-! ## Forgetting opens the revision again -/

/-- An operation without authority, effects or failure. -/
def plainSnapshot (phase : OperationPhase) (cancellationRequested : Bool) (effects : EffectState)
    (value : Option Json) : OperationSnapshot :=
  ⟨none, .unbound, [], "op-1", phase, cancellationRequested, effects, value, none⟩

def finishedSnapshot (cancellationRequested : Bool) : OperationSnapshot :=
  plainSnapshot .succeeded cancellationRequested .notApplicable (some .null)

/-- An operation about to complete that never executed anything. -/
def cleaningSnapshot : OperationSnapshot := plainSnapshot .cleaning false .notStarted none

/-- The document of such an operation, around its revision, its phase, its cancellation flag, its
effects and its value:
`{"runtime_id":"rt-1","revision":1,"snapshot":{"context":{"kind":"unbound"},"host_effects":[],`
`"operation_id":"op-1","phase":"succeeded","cancellation_requested":true,`
`"effects":"not_applicable","value":null},"reconciliation":null}`. -/
def plainDocument (revision phase cancellationRequested effects value : List UInt8) : List UInt8 :=
  [123, 34, 114, 117, 110, 116, 105, 109, 101, 95, 105, 100, 34, 58, 34, 114, 116, 45, 49, 34, 44,
   34, 114, 101, 118, 105, 115, 105, 111, 110, 34, 58] ++ revision ++
  [44, 34, 115, 110, 97, 112, 115, 104, 111, 116, 34, 58, 123, 34, 99, 111, 110, 116, 101, 120,
   116, 34, 58, 123, 34, 107, 105, 110, 100, 34, 58, 34, 117, 110, 98, 111, 117, 110, 100, 34,
   125, 44, 34, 104, 111, 115, 116, 95, 101, 102, 102, 101, 99, 116, 115, 34, 58, 91, 93, 44, 34,
   111, 112, 101, 114, 97, 116, 105, 111, 110, 95, 105, 100, 34, 58, 34, 111, 112, 45, 49, 34,
   44, 34, 112, 104, 97, 115, 101, 34, 58, 34] ++ phase ++
  [34, 44, 34, 99, 97, 110, 99, 101, 108, 108, 97, 116, 105, 111, 110, 95, 114, 101, 113, 117, 101,
   115, 116, 101, 100, 34, 58] ++ cancellationRequested ++
  [44, 34, 101, 102, 102, 101, 99, 116, 115, 34, 58, 34] ++ effects ++ [34] ++ value ++
  [125, 44, 34, 114, 101, 99, 111, 110, 99, 105, 108, 105, 97, 116, 105, 111, 110, 34, 58, 110,
   117, 108, 108, 125]

def boolDocument : Bool → List UInt8
  | false => [102, 97, 108, 115, 101]
  | true => [116, 114, 117, 101]

def finishedDocument (revision : List UInt8) (cancellationRequested : Bool) : List UInt8 :=
  plainDocument revision [115, 117, 99, 99, 101, 101, 100, 101, 100]
    (boolDocument cancellationRequested)
    [110, 111, 116, 95, 97, 112, 112, 108, 105, 99, 97, 98, 108, 101]
    [44, 34, 118, 97, 108, 117, 101, 34, 58, 110, 117, 108, 108]

def cleaningDocument : List UInt8 :=
  plainDocument [49] [99, 108, 101, 97, 110, 105, 110, 103] (boolDocument false)
    [110, 111, 116, 95, 115, 116, 97, 114, 116, 101, 100] []

/-- The records of such operations as the linked serializer prints them. -/
def plainTable : SerdeTable where
  records := [
    ⟨⟨"rt-1", 1, cleaningSnapshot, none⟩, cleaningDocument,
      [240, 138, 242, 53, 138, 226, 236, 36, 48, 247, 169, 188, 241, 102, 198, 243, 87, 98, 38,
       78, 55, 172, 28, 38, 128, 153, 37, 93, 54, 100, 186, 51]⟩,
    ⟨⟨"rt-1", 1, finishedSnapshot false, none⟩, finishedDocument [49] false,
      [177, 194, 224, 40, 146, 88, 66, 5, 248, 232, 24, 17, 164, 148, 46, 29, 16, 249, 195, 223,
       102, 242, 193, 56, 49, 15, 120, 156, 76, 114, 168, 163]⟩,
    ⟨⟨"rt-1", 1, finishedSnapshot true, none⟩, finishedDocument [49] true,
      [108, 226, 112, 173, 72, 59, 84, 88, 170, 33, 232, 42, 74, 36, 146, 183, 144, 92, 255, 48,
       156, 4, 231, 152, 59, 179, 64, 188, 1, 84, 174, 99]⟩,
    ⟨⟨"rt-1", 2, finishedSnapshot false, none⟩, finishedDocument [50] false,
      [114, 183, 101, 207, 51, 91, 47, 47, 228, 97, 105, 27, 241, 108, 150, 13, 75, 17, 15, 48, 1,
       63, 51, 93, 135, 45, 16, 102, 35, 224, 190, 9]⟩,
    ⟨⟨"rt-1", 2, finishedSnapshot true, none⟩, finishedDocument [50] true,
      [137, 209, 17, 59, 244, 45, 1, 128, 181, 190, 63, 186, 146, 193, 88, 249, 230, 199, 162, 36,
       98, 221, 121, 39, 147, 214, 10, 31, 69, 36, 76, 186]⟩]
  snapshots := [(cleaningSnapshot, 144), (finishedSnapshot false, 161), (finishedSnapshot true, 160)]
  documents_nodup := by decide +kernel
  documents_object := by decide +kernel

noncomputable def plainJournal : OperationJournal := ⟨plainTable.serde, ⟨4, 512⟩⟩

theorem eq_ok_of_isOk {x : EmbeddedResult Unit} (h : x.isOk = true) : x = .ok () := by
  cases x with
  | ok _ => rfl
  | error _ => cases h

/-- Without the proviso two different writes of one revision can both succeed: `forget` deletes the
first record and the identity may be inserted again. -/
theorem writes_disagree_after_forget : ¬ ∀ (J : OperationJournal) (calls : List JournalCall)
    (first : JournalCall) (between : List JournalCall) (second : JournalCall) (key : JournalKey)
    (n : ℕ) (c c' : JournalContent), first.write? = some (key, n, c) →
    second.write? = some (key, n, c') → (J.perform (J.run calls) first).2 = .ok () →
    (J.perform (J.runFrom (J.perform (J.run calls) first).1 between) second).2 = .ok () →
    c = c' := by
  intro h
  have := h plainJournal [] (.writeCheckpoint "rt-1" none (finishedSnapshot false) false .none)
    [.forget ("rt-1", "op-1") 1 .none]
    (.writeCheckpoint "rt-1" none (finishedSnapshot true) false .none) _ _ _ _ rfl rfl
    (eq_ok_of_isOk (by decide +kernel)) (eq_ok_of_isOk (by decide +kernel))
  cases this

end OperationJournal

end LuaSkills.Embedded
