import LuaSkills.Embedded.Operation.Rows

/-!
# Owner and journal agree

What a queued operation submits passes the journal's checks of the evidence: against the record it
replaces no write of the operation is inconsistent. A write is refused for the limits of the journal,
by the storage, or because somebody else attested or deleted the record.
-/

namespace LuaSkills.Embedded

namespace OperationJournal
variable {J : OperationJournal} {s : JournalState} {runtimeId : String} {previous : Option ℕ}
  {snapshot : OperationSnapshot} {faults : TransactionFaults} {e : EmbeddedError}

/-- A refusal that does not depend on the evidence: identity and record size, exhausted revisions, the
retained count, and the storage. -/
inductive Limited (J : OperationJournal) (s : JournalState) (runtimeId : String) (previous : Option ℕ)
    (snapshot : OperationSnapshot) (faults : TransactionFaults) (e : EmbeddedError) : Prop where
  | identity : J.validateKey (runtimeId, snapshot.operationId) = .error e →
    Limited J s runtimeId previous snapshot faults e
  | size : J.config.maxRecordBytes < J.serde.snapshotSize snapshot ∨
      J.config.maxRecordBytes < (J.serde.encode (candidate runtimeId previous snapshot)).length →
    Limited J s runtimeId previous snapshot faults e
  | exhausted : successor previous = .error e → Limited J s runtimeId previous snapshot faults e
  | retention : previous = none → J.config.maxRecords ≤ s.table.size → e = capacity →
    Limited J s runtimeId previous snapshot faults e
  | locked : lock s = .error e → Limited J s runtimeId previous snapshot faults e
  | failed : faults.begin? = some e ∨ faults.statement? = some e →
    Limited J s runtimeId previous snapshot faults e
  | unproven : faults.rolledBack = false ∨ (∃ applied, faults.commit = .lost applied) →
    e = uncertain → Limited J s runtimeId previous snapshot faults e

/-- A write is refused before its transaction for a limit only. -/
theorem prepareWrite_error (hc : validateCallers runtimeId snapshot = .ok ())
    (h : J.prepareWrite runtimeId previous snapshot = .error e) :
    J.Limited s runtimeId previous snapshot faults e := by
  simp only [prepareWrite, Except.bind_eq_error, hc] at h
  rcases h with h | ⟨_, hk, h | ⟨_, _, h | ⟨_, _, h | ⟨n, hn, h | ⟨_, _, h⟩⟩⟩⟩⟩
  · exact .identity h
  · cases h
  · simp only [jsonSize, Except.bind_eq_error, refuseIf_eq_error] at h
    rcases h with ⟨h, -⟩ | ⟨_, _, h⟩
    · exact .size (.inl h)
    · cases h
  · exact .exhausted h
  · obtain ⟨-, -, rfl⟩ := successor_eq_ok hn
    simp only [encode, jsonSize, Except.bind_eq_error, refuseIf_eq_error] at h
    rcases h with h | ⟨_, _, (⟨h, -⟩ | ⟨_, _, h⟩) | ⟨_, _, h⟩⟩
    · exact .identity h
    · exact .size (.inr h)
    · cases h
    · cases h
  · cases h

theorem transaction_error (h : (transaction s faults mutation).2 = .error e) :
    mutation s.table = .error e ∨ lock s = .error e ∨
      (faults.begin? = some e ∨ faults.statement? = some e) ∨
      (faults.rolledBack = false ∨ ∃ applied, faults.commit = .lost applied) ∧ e = uncertain := by
  unfold transaction at h
  split at h
  · next hl => exact .inr (.inl (hl.trans h))
  · next hb =>
    cases h
    exact .inr (.inr (.inl (.inl hb)))
  · split at h
    · split at h
      · cases h
      · next applied hc =>
        cases h
        exact .inr (.inr (.inr ⟨.inr ⟨applied, hc⟩, rfl⟩))
    · next hm =>
      split at h
      · cases h
        unfold TransactionFaults.through at hm
        split at hm
        · next hs =>
          cases hm
          exact .inr (.inr (.inl (.inr hs)))
        · exact .inl hm
      · next hr =>
        cases h
        exact .inr (.inr (.inr ⟨.inl (by simpa using hr), rfl⟩))

theorem writeMutation_error (H : J.Sound s.table)
    (h : J.writeMutation previous r (J.serde.encode r) true s.table = .error e) :
    let current := J.record s.table (r.runtimeId, r.snapshot.operationId)
    current ≠ some r ∧
      (previous = none ∧ (current.isSome ∨ J.config.maxRecords ≤ s.table.size ∧ e = capacity) ∨
        ∃ p, previous = some p ∧ ∀ c, current = some c → c.reconciliation = none →
          c.revision = p → c.snapshot.context = r.snapshot.context →
            ¬ c.snapshot.KeepsFinalization r.snapshot) := by
  intro current
  have hne : current ≠ some r := by
    intro hc
    exact nomatch h.symm.trans (writeMutation_retry H previous hc)
  refine ⟨hne, ?_⟩
  simp only [writeMutation, H.read, Except.ok_bind] at h
  rw [Except.bind_eq_error] at h
  rcases h with h | ⟨done, hd, h⟩
  · -- the stored record could be encoded when it was stored
    unfold committedBy at h
    split at h
    · next c hc =>
      obtain ⟨row, -, hst⟩ := H.record_stored hc
      split at h
      · rw [hst.encode, Except.ok_bind] at h
        cases h
      · cases h
    · cases h
  · have hd : done = false := by
      cases done with
      | false => rfl
      | true => cases h
    subst hd
    simp only [Bool.false_eq_true, if_false] at h
    cases previous with
    | none =>
      simp only [Except.bind_eq_error, refuseIf_eq_error] at h
      rcases h with ⟨hs, -⟩ | ⟨_, _, ⟨hs, he⟩ | ⟨_, _, h⟩⟩
      · exact .inl ⟨rfl, .inl hs⟩
      · exact .inl ⟨rfl, .inr ⟨hs, he.symm⟩⟩
      · cases h
    | some p =>
      refine .inr ⟨p, rfl, fun c hc hn hrev hctx hk => ?_⟩
      have hc : J.record s.table (r.runtimeId, r.snapshot.operationId) = some c := hc
      have hk := OperationSnapshot.validateFinalizationSuccessor_eq_ok.2 hk
      simp [hc, hn, hrev, hctx, hk, refuseIf, bind, Except.bind, Except.pure_eq_ok] at h

/-- A write with consistent callers is refused for a limit or by its mutation. -/
theorem writeCheckpoint_error (hc : validateCallers runtimeId snapshot = .ok ())
    (h : (J.writeCheckpoint s runtimeId previous snapshot true faults).2 = .error e) :
    J.Limited s runtimeId previous snapshot faults e ∨
      J.writeMutation previous (candidate runtimeId previous snapshot)
        (J.serde.encode (candidate runtimeId previous snapshot)) true s.table = .error e := by
  simp only [writeCheckpoint, guarded] at h
  cases hp : J.prepareWrite runtimeId previous snapshot with
  | error e' =>
    rw [hp] at h
    cases h
    exact .inl (prepareWrite_error hc hp)
  | ok p =>
    obtain ⟨r, document⟩ := p
    obtain ⟨hrt, hsn, hn, hrev, rfl, -⟩ := prepareWrite_ok hp
    have hr : candidate runtimeId previous snapshot = r := by
      rw [candidate, ← hrt, ← hrev, ← hsn, ← hn]
    simp only [hp] at h
    rw [hr]
    have ht : (transaction s faults (J.writeMutation previous r (J.serde.encode r) true)).2 =
        .error e := by
      revert h
      cases (transaction s faults (J.writeMutation previous r (J.serde.encode r) true)).2 with
      | ok _ => rintro ⟨⟩
      | error _ =>
        intro h
        cases h
        rfl
    rcases transaction_error ht with h | h | h | ⟨h, he⟩
    · exact .inr h
    · exact .inl (.locked h)
    · exact .inl (.failed h)
    · exact .inl (.unproven h he)

end OperationJournal

/-- The call deletes evidence of `key` when it succeeds. -/
def WriterCall.forgets (key : JournalKey) : WriterCall → Bool
  | .journal call => call.forgets key
  | _ => false

open WriterWorld OperationJournal List Option

namespace WriterWorld
variable {C : WriterCenter} {n : ℕ} {w w' : WriterWorld} {p : ThreadPoint} {call : WriterCall}
  {key : JournalKey}

def WroteUnder (w : WriterWorld) (key : JournalKey) : Prop :=
  ∃ x ∈ w.executed, (∃ m, x.result = .ok m) ∧ ∃ y ∈ w.charges[x.attempt]?, y.1.key = key

/-- What was written stays stored until it is forgotten. -/
def Present (C : WriterCenter) (w : WriterWorld) (key : JournalKey) : Prop :=
  w.WroteUnder key → (C.journal.record w.journal.table key).isSome

theorem Inv.executed_charges (H : w.Inv C n p) (hx : x ∈ w.executed) :
    ∃ y, w.charges[x.attempt]? = some y := by
  have hlt := H.executed_lt hx
  rw [← length_charges] at hlt
  exact ⟨_, getElem?_eq_getElem hlt⟩

theorem Present.seen (H : w.Inv C n p) (S : C.journal.Sound w.journal.table)
    (hp : Present C w key) (hs : Seen C w call w') (hf : call.forgets key = false) :
    Present C w' key := by
  cases hs with
  | none hj he hc => rwa [Present, WroteUnder, hj, he, hc]
  | submit hcall hj he hc =>
    rintro ⟨x, hx, hm, y, hy, hk⟩
    rw [he] at hx
    obtain ⟨y', hy'⟩ := H.executed_charges hx
    have hold := getElem?_prefix_some (hc ▸ prefix_append _ _) hy'
    cases hold.symm.trans hy
    exact hj ▸ hp ⟨x, hx, hm, y, hy', hk⟩
  | @journal journalCall hcall hj he hc =>
    intro hw
    rw [WroteUnder, he, hc] at hw
    have hsome := hp hw
    rw [hj]
    rcases (perform_effect S journalCall).1.lookup key with hl | ⟨-, hd⟩
    · rwa [record, hl]
    · rw [isSome_iff_ne_none]
      intro hn
      subst hcall
      exact absurd (hf.symm.trans (hd hn)) (by rintro ⟨⟩)
  | @execute i id x fault faults hcall hx hn hj he hc =>
    rintro ⟨z, hz, ⟨m, hm⟩, y, hy, hk⟩
    obtain ⟨htable, hok⟩ := writeCheckpoint_effect S x.1.runtimeId x.1.expectedRevision x.1.snapshot
      x.1.reconcile faults
    rw [he, mem_append] at hz
    rw [hc] at hy
    rw [hj]
    rcases hz with hz | hz
    · have hsome := hp ⟨z, hz, ⟨m, hm⟩, y, hy, hk⟩
      rcases htable with ht | hput
      · exact (congrArg (fun t => (C.journal.record t key).isSome) ht).trans hsome
      · by_cases hkey : key = x.1.key
        · subst hkey
          exact isSome_iff_exists.2 ⟨_, hput.record_self⟩
        · exact (congrArg isSome (hput.record_ne hkey)).trans hsome
    · cases mem_singleton.1 hz
      cases hx.symm.trans hy
      obtain ⟨r, hr, -⟩ := map_eq_ok.1 hm
      subst hk
      exact isSome_iff_exists.2 ⟨r, (hok r hr).2⟩

end WriterWorld

namespace Operation
variable {O : Operation} {K : Allowance} {w v : OperationWorld} {c : PendingCheckpoint} {σ : Slot}

theorem Present.move (I : Inv O w) (R : Rows O w) (hK : ∀ call, K.writer call → call.forgets O.key = false)
    (hp : Present O.center w.writer O.key) (m : Move O K w v) : Present O.center v.writer O.key := by
  obtain ⟨n, p, W⟩ := I.protocol.writer
  cases m with
  | @writer call _ hw => exact hp.seen W R.sound (W.seen call) (hK call hw)
  | progress h hprog =>
    cases hprog with
    | submit queuePoisoned => exact hp.seen W R.sound (.submitRequest w.writer _ queuePoisoned) rfl
    | acknowledge | fail => exact hp.seen W R.sound (.dropReceipt w.writer _) rfl
    | _ => exact hp
  | _ => exact hp

theorem Present.moves (I : Inv O w) (R : Rows O w)
    (hK : ∀ call, K.writer call → call.forgets O.key = false)
    (hp : Present O.center w.writer O.key) (m : Moves O K w v) : Present O.center v.writer O.key := by
  induction m with
  | refl => exact hp
  | tail ms m ih => exact Present.move (I.moves ms) (R.moves I ms) hK ih m

/-- A record is stored for an operation with an acknowledged revision, unless it was forgotten. -/
theorem Inv.stored_of_acknowledged (I : Inv O w) (hp : Present O.center w.writer O.key)
    (hr : w.revision = some m) : (O.stored w).isSome := by
  rw [I.protocol.revised.revision] at hr
  obtain ⟨⟨m', s⟩, hl, -⟩ := map_eq_some_iff.1 hr
  have hmem := mem_of_getLast? hl
  obtain ⟨x, hx, hm, y, hy, hid, rfl⟩ := I.protocol.revised.written m' s hmem
  refine hp ⟨x, hx, ⟨m', hm⟩, y, hy, ?_⟩
  rw [WriteRequest.key, hid, (I.contents.acknowledged _ hmem).2]
  rfl

/-- The record of the operation was attested by somebody else. -/
def Attested (O : Operation) (w : OperationWorld) : Prop :=
  ∃ r, O.stored w = some r ∧ r.reconciliation.isSome

/-- The refusals of the operation's own writes. -/
theorem Inv.refused (I : Inv O w) (R : Rows O w) {id : ℕ} {x : WriteRequest × ℕ}
    {faults : TransactionFaults} {e : EmbeddedError} (hx : w.writer.charges[id]? = some x)
    (hk : x.1.key = O.key) (hn : ¬ w.writer.Completed id)
    (h : (O.center.write w.writer.journal x.1 faults).2 = .error e) :
    O.center.journal.Limited w.writer.journal x.1.runtimeId x.1.expectedRevision x.1.snapshot faults
        e ∨ Attested O w ∨ (∃ m, w.revision = some m) ∧ O.stored w = none := by
  have P := I.protocol
  have C := I.contents
  obtain ⟨σ, c, hc, hid⟩ := (P.flight id x hx hk).resolve_left hn
  obtain ⟨y, hy, hreq⟩ := (P.held σ c hc).receipt id hid
  cases hy.symm.trans hx
  have hne : c.attempt ≠ .acknowledged := by
    intro hack
    rw [hack] at hid
    cases hid
  rw [hreq] at h ⊢
  have he : (O.center.journal.writeCheckpoint w.writer.journal O.runtimeId w.revision c.snapshot true
      faults).2 = .error e := by
    revert h
    simp only [WriterCenter.write, request]
    cases (O.center.journal.writeCheckpoint w.writer.journal O.runtimeId w.revision c.snapshot true
      faults).2 with
    | ok _ => rintro ⟨⟩
    | error _ =>
      intro h
      cases h
      rfl
  rcases writeCheckpoint_error (C.slot P hc).1.accepted he with hl | hm
  · exact .inl hl
  obtain ⟨hnext, hm⟩ := writeMutation_error R.sound hm
  have hkey : (O.runtimeId, c.snapshot.operationId) = O.key := request_key P C hc
  simp only [candidate, hkey] at hnext hm
  have hrevision := P.revised.revision
  cases hs : O.stored w with
  | none =>
    rcases hm with ⟨hp, hsome | ⟨hsize, hcap⟩⟩ | ⟨p, hp, -⟩
    · exact absurd (congrArg isSome hs ▸ hsome) (by rintro ⟨⟩)
    · exact .inl (.retention hp hsize hcap)
    · exact .inr (.inr ⟨⟨p, hp⟩, rfl⟩)
  | some r =>
    right
    left
    refine ⟨r, hs, ?_⟩
    by_contra hrec
    have hrec : r.reconciliation = none := not_isSome_iff_eq_none.1 hrec
    rcases R.row r hs hrec with ⟨m, s, hl, rfl⟩ | ⟨τ, d, hd, -, hr⟩
    · rw [hl] at hrevision
      obtain ⟨hctx, hkeeps⟩ := C.successor P hc hne hl
      rcases hm with ⟨hp, -⟩ | ⟨p, hp, hm⟩
      · cases hp.symm.trans hrevision
      · cases hp.symm.trans hrevision
        exact hm _ hs rfl rfl hctx hkeeps
    · obtain ⟨-, rfl⟩ := P.slot_unique hc hd
      exact hnext (hs.trans (congrArg some hr))

/-- Every submission passes the journal's checks against the record of the previous acknowledgement.
Whenever a thread executes a write of the operation and it is refused, the reason is a limit, the
storage, an attestation by somebody else or a deletion by somebody else. -/
theorem run_agrees (O : Operation) (hq : O.backend = .queued) (earlier : List JournalCall)
    (hf : O.Fresh earlier) (calls : List OperationCall) :
    let w := O.run earlier calls
    (∀ x ∈ w.submissions, x.snapshot.validateFinalization = .ok () ∧
      x.snapshot.context.validate O.runtimeId x.snapshot.operationId = .ok () ∧
      validateCallers O.runtimeId x.snapshot = .ok () ∧
      ∀ m, x.previous = some m → ∃ s, (m, s) ∈ w.acknowledged ∧
        s.context = x.snapshot.context ∧ x.snapshot.validateFinalizationSuccessor s = .ok ()) ∧
    (∀ r, O.stored w = some r → r.reconciliation = none → Current O w r ∨
      ∃ σ c, w.slot σ = some c ∧ c.attempt ≠ .acknowledged ∧ r = O.next w c) ∧
    ∀ i fault faults id receipt e, w.writer.receipts[id]? = some receipt →
      receipt.request.key = O.key →
      (O.perform w (.writer (.thread i fault faults))).writer.executed =
        w.writer.executed ++ [⟨i, id, .error e⟩] →
      O.center.journal.Limited w.writer.journal receipt.request.runtimeId
          receipt.request.expectedRevision receipt.request.snapshot faults e ∨
        Attested O w ∨
        O.stored w = none ∧ ∃ call, .writer call ∈ calls ∧ call.forgets O.key := by
  intro w
  have I : Inv O w := .run hq earlier calls
  have R : Rows O w := .run hq hf calls
  refine ⟨fun x hx => ?_, R.row, fun i fault faults id receipt e hr hk he => ?_⟩
  · have hp := I.contents.submissions x hx
    obtain ⟨_, hfin, _, hctx, -⟩ := by simpa only [validateCallers, Except.bind_eq_ok] using hp.accepted
    refine ⟨hfin, hctx, hp.accepted, fun m hm => ?_⟩
    obtain ⟨s, hs, hc, hkeeps⟩ := hp.successor m hm
    exact ⟨s, hs, hc, OperationSnapshot.validateFinalizationSuccessor_eq_ok.2 hkeeps⟩
  · obtain ⟨n, p, W⟩ := I.protocol.writer
    have he : (O.center.perform w.writer (.thread i fault faults)).executed =
      w.writer.executed ++ [⟨i, id, .error e⟩] := he
    have hlog : ∀ l : List Execution, l ++ [⟨i, id, .error e⟩] ≠ l := by simp
    cases W.seen (.thread i fault faults) with
    | none _ h => exact absurd (he.symm.trans h) (hlog _)
    | submit hcall | journal hcall => cases hcall
    | @execute i' id' x fault' faults' hcall hx hn _ hx' _ =>
      cases hcall
      have hlast := append_cancel_left (he.symm.trans hx')
      obtain ⟨rfl, hres⟩ : id = id' ∧ (O.center.write w.writer.journal x.1 faults).2 = .error e := by
        simpa [eq_comm] using hlast
      have hx₀ : w.writer.charges[id]? = some (receipt.request, receipt.bytes) := by
        rw [charges, getElem?_map, hr]
        rfl
      cases hx₀.symm.trans hx
      rcases I.refused R hx hk hn hres with h | h | ⟨⟨m, hm⟩, hnone⟩
      · exact .inl h
      · exact .inr (.inl h)
      · refine .inr (.inr ⟨hnone, ?_⟩)
        by_contra hforget
        have hw : ∀ call, .writer call ∈ calls → call.forgets O.key = false := by
          intro call hmem
          by_contra h
          exact hforget ⟨call, hmem, by simpa using h⟩
        have I₀ := Inv.start O earlier
        have hp : Present O.center w.writer O.key :=
          Present.moves I₀ (.new hf) (fun _ h => h) (by rintro ⟨_, ⟨⟩, -⟩) (I₀.run_moves_among hq calls hw)
        have := I.stored_of_acknowledged hp hm
        rw [hnone] at this
        cases this

theorem run_agrees_cleaning :
    let w := (plainOperation .queued).run [] cleaningCalls
    w.submissions.map Submission.snapshot = [cleaningSnapshot] ∧
      ∀ x ∈ w.submissions, validateCallers "rt-1" x.snapshot = .ok () := by
  intro w
  refine ⟨by decide +kernel, fun x hx => ?_⟩
  obtain ⟨h, -⟩ := run_agrees (plainOperation .queued) rfl [] rfl cleaningCalls
  exact (h x hx).2.2.1

/-- The confirmation of the terminal write is lost. The host recovers the storage, finds the operation
finished and forgets it; then the owner retries. -/
def forgottenCalls : List OperationCall :=
  cleaningCalls ++
  [.prepareCompletion (.ok .null) .notApplicable, .pollCompletionCheckpoint false ⟨false, false⟩] ++
  turn ⟨none, none, true, .lost true⟩ ++
  [.pollCompletionCheckpoint false ⟨false, false⟩, .writer (.journal (.recoverStorage .none)),
    .writer (.journal (.forget ("rt-1", "op-1") 2 .none)),
    .pollCompletionCheckpoint true ⟨false, false⟩,
    .writer (.thread 0 .none .none), .writer (.thread 0 .none .none)]

/-- A write can also be refused because its record was deleted. -/
theorem refused_after_forget : ¬ ∀ (O : Operation) (earlier : List JournalCall)
    (calls : List OperationCall), O.backend = .queued → O.Fresh earlier →
    ∀ i fault faults id receipt e, (O.run earlier calls).writer.receipts[id]? = some receipt →
      receipt.request.key = O.key →
      (O.perform (O.run earlier calls) (.writer (.thread i fault faults))).writer.executed =
        (O.run earlier calls).writer.executed ++ [⟨i, id, .error e⟩] →
      O.center.journal.Limited (O.run earlier calls).writer.journal receipt.request.runtimeId
          receipt.request.expectedRevision receipt.request.snapshot faults e ∨
        Attested O (O.run earlier calls) := by
  intro h
  have hr : ((plainOperation .queued).run [] forgottenCalls).writer.receipts[2]?.map
      (fun r => (r.request.runtimeId, r.request.expectedRevision, r.request.snapshot)) =
        some ("rt-1", some 1, finishedSnapshot false) := by decide +kernel
  obtain ⟨receipt, hr, hq⟩ := map_eq_some_iff.1 hr
  simp only [Prod.mk.injEq] at hq
  obtain ⟨hrt, hp, hs⟩ := hq
  have hx := h (plainOperation .queued) [] forgottenCalls rfl rfl 0 .none .none 2
    receipt missing hr (by rw [WriteRequest.key, hrt, hs]; rfl) (by decide +kernel)
  rw [hrt, hp, hs] at hx
  rcases hx with hl | ⟨r, hr, -⟩
  · cases hl with
    | identity h | size h => exact absurd h (by decide +kernel)
    | exhausted h => exact absurd h (by decide +kernel)
    | retention h => cases h
    | locked h | failed h => exact absurd h (by decide +kernel)
    | unproven _ h => exact absurd h (by decide +kernel)
  · have : (plainOperation .queued).stored ((plainOperation .queued).run [] forgottenCalls) = none := by
      decide +kernel
    exact absurd (this.symm.trans hr) nofun

end Operation

end LuaSkills.Embedded
