import LuaSkills.Embedded.Operation.Runs

/-!
# The stored record of a queued operation

Unless somebody outside attests or deletes it, the record of the operation is the one last acknowledged
or already the one its candidate asks for; a candidate whose write succeeded is stored.
-/

namespace LuaSkills.Embedded

open WriterWorld OperationJournal List OperationWorld

variable {W : WriterWorld}

namespace Operation
variable {O : Operation} {K : Allowance} {w v : OperationWorld} {c c' : PendingCheckpoint} {σ : Slot}

/-- The record stored for the operation. -/
def stored (O : Operation) (w : OperationWorld) : Option JournalOperation :=
  O.center.journal.record w.writer.journal.table O.key

/-- The record of the last acknowledgement. -/
def Current (O : Operation) (w : OperationWorld) (r : JournalOperation) : Prop :=
  ∃ m s, w.acknowledged.getLast? = some (m, s) ∧ r = ⟨O.runtimeId, m, s, none⟩

def next (O : Operation) (w : OperationWorld) (c : PendingCheckpoint) : JournalOperation :=
  candidate O.runtimeId w.revision c.snapshot

def Wrote (w : WriterWorld) (id : ℕ) : Prop := ∃ x ∈ w.executed, x.attempt = id ∧ ∃ m, x.result = .ok m

structure Rows (O : Operation) (w : OperationWorld) : Prop where
  sound : O.center.journal.Sound w.writer.journal.table
  row : ∀ r, O.stored w = some r → r.reconciliation = none → Current O w r ∨
    ∃ σ c, w.slot σ = some c ∧ c.attempt ≠ .acknowledged ∧ r = O.next w c
  wrote : ∀ σ c id, w.slot σ = some c → id ∈ c.attempt.receipt? → Wrote w.writer id →
    ∀ r, O.stored w = some r → r.reconciliation = none → r = O.next w c

/-- Moves that touch neither the journal, nor the executions, nor the slots, nor the revisions. -/
theorem Rows.frame (R : Rows O w) (hj : v.writer.journal = w.writer.journal)
    (he : v.writer.executed = w.writer.executed) (hslot : ∀ τ, v.slot τ = w.slot τ)
    (ha : v.acknowledged = w.acknowledged) (hr : v.revision = w.revision) : Rows O v where
  sound := hj ▸ R.sound
  row r h hn := by
    simp only [Current, next, ha, hslot, hr]
    exact R.row r (by rwa [stored, ← hj]) hn
  wrote σ c id hs hid hw r h hn := by
    rw [next, hr]
    refine R.wrote σ c id (hslot σ ▸ hs) hid ?_ r (by rwa [stored, ← hj]) hn
    rwa [Wrote, ← he]

/-- A candidate that nobody has submitted joins empty slots. -/
theorem Rows.retain (R : Rows O w) (free : ∀ τ, w.slot τ = none)
    (hw : v.writer = w.writer) (hnew : ∀ τ d, v.slot τ = some d → d.attempt = .new)
    (ha : v.acknowledged = w.acknowledged) : Rows O v where
  sound := hw ▸ R.sound
  row r h hn := by
    rcases R.row r (by rwa [stored, ← hw]) hn with hc | ⟨τ, d, hd, -⟩
    · left
      rwa [Current, ha]
    · exact absurd ((free τ).symm.trans hd) nofun
  wrote τ d id hd hid := by
    rw [hnew τ d hd] at hid
    cases hid

/-- The slots are empty again after an acknowledgement. -/
theorem Rows.release (P : Protocol O w) (R : Rows O w) (h : w.slot σ = some c)
    (hack : c.attempt = .acknowledged) (hw : v.writer = w.writer) (hfree : ∀ τ, v.slot τ = none)
    (ha : v.acknowledged = w.acknowledged) : Rows O v where
  sound := hw ▸ R.sound
  row r hr hn := by
    rcases R.row r (by rwa [stored, ← hw]) hn with hc | ⟨τ, d, hd, hne, -⟩
    · left
      rwa [Current, ha]
    · obtain ⟨-, rfl⟩ := P.slot_unique h hd
      exact absurd hack hne
  wrote τ d id hd := absurd ((hfree τ).symm.trans hd) nofun

/-! ## The candidate moves on -/

theorem Rows.progress_frame (P : Protocol O w) (R : Rows O w) (h : w.slot σ = some c)
    (hc : Continues c c') (hj : v.writer.journal = w.writer.journal) (hslot : ∀ τ, v.slot τ = w.slot τ)
    (ha : v.acknowledged = w.acknowledged) (hr : v.revision = w.revision)
    (hack : c.attempt ≠ .acknowledged → c'.attempt ≠ .acknowledged)
    (hw : ∀ id ∈ c'.attempt.receipt?, Wrote v.writer id →
      id ∈ c.attempt.receipt? ∧ Wrote w.writer id) : Rows O (v.setSlot σ (some c')) where
  sound := by
    change O.center.journal.Sound v.writer.journal.table
    exact hj ▸ R.sound
  row r hr' hn := by
    have hst : O.stored v = some r := hr'
    rw [stored, hj] at hst
    rcases R.row r hst hn with hcur | ⟨τ, d, hd, hne, hnext⟩
    · left
      change ∃ m s, v.acknowledged.getLast? = _ ∧ _
      rwa [ha]
    · obtain ⟨-, rfl⟩ := P.slot_unique h hd
      refine .inr ⟨σ, c', slot_setSlot .., hack hne, ?_⟩
      change r = candidate O.runtimeId v.revision c'.snapshot
      rw [hr, hc.snapshot]
      exact hnext
  wrote τ d id hd hid hwr r hr' hn := by
    have hst : O.stored v = some r := hr'
    rw [stored, hj] at hst
    by_cases hτ : τ = σ
    · subst hτ
      rw [slot_setSlot] at hd
      cases hd
      obtain ⟨hid₀, hwr₀⟩ := hw id hid hwr
      change r = candidate O.runtimeId v.revision c'.snapshot
      rw [hr, hc.snapshot]
      exact R.wrote τ c id h hid₀ hwr₀ r hst hn
    · rw [slot_setSlot_ne _ hτ, hslot] at hd
      exact absurd (P.slot_unique h hd).1 hτ

/-- A new attempt has not been executed. -/
theorem not_wrote (H : W.Inv O.center n p) : ¬ Wrote W W.receipts.length := by
  rintro ⟨x, hx, hid, -⟩
  exact absurd hid (Nat.ne_of_lt (H.executed_lt hx))

theorem Rows.submit (P : Protocol O w) (R : Rows O w) (h : w.slot σ = some c) (queuePoisoned : Bool) :
    Rows O ({ w with
        writer := (O.center.submitRequest w.writer (O.request w c.snapshot) queuePoisoned).1
        submissions := w.submissions ++ [Submission.mk c.candidate c.snapshot w.revision] }.setSlot σ
      (some { c with
        attempt := .ofSubmission
          (O.center.submitRequest w.writer (O.request w c.snapshot) queuePoisoned).2 })) := by
  obtain ⟨n, p, W⟩ := P.writer
  have hnot := not_wrote W
  rcases submitRequest_result (C := O.center) w.writer (O.request w c.snapshot) queuePoisoned
    with ⟨e, he⟩ | ⟨bytes, hb⟩
  · simp only [he]
    exact R.progress_frame P h ⟨rfl, rfl, rfl⟩ rfl (fun _ => rfl) rfl rfl (fun _ => nofun) nofun
  · simp only [hb]
    refine R.progress_frame P h ⟨rfl, rfl, rfl⟩ rfl (fun _ => rfl) rfl rfl (fun _ => nofun) ?_
    intro id hid hwr
    cases hid
    exact absurd hwr hnot

theorem Rows.acknowledge (P : Protocol O w) (R : Rows O w) (h : w.slot σ = some c) {id next : ℕ}
    {receipt : ReceiptState} (hc : c.attempt = .submitted id)
    (hr : w.writer.receipts[id]? = some receipt) (hs : receipt.snapshot = .ofResult (.ok next))
    (hj : W.journal = w.writer.journal) :
    Rows O ({ w with
        writer := W
        revision := some next
        acknowledged := w.acknowledged ++ [(next, c.snapshot)] }.setSlot σ
      (some { c with attempt := .acknowledged })) := by
  obtain ⟨hreq, -⟩ := P.completed h hc hr hs
  obtain ⟨n, p, H⟩ := P.writer
  obtain ⟨⟨i, hi⟩, hnext⟩ := H.acknowledged hr hs
  rw [hreq, request] at hnext
  refine ⟨hj ▸ R.sound, fun r hr' hn => .inl ?_, fun τ d id' hd hid => ?_⟩
  · have hr' : O.center.journal.record W.journal.table O.key = some r := hr'
    rw [hj] at hr'
    have := R.wrote σ c id h (by rw [hc]; rfl) ⟨_, hi, rfl, next, rfl⟩ r hr' hn
    refine ⟨next, c.snapshot, getLast?_concat, ?_⟩
    rw [this, Operation.next, candidate, hnext]
  · by_cases hτ : τ = σ
    · subst hτ
      rw [slot_setSlot] at hd
      cases hd
      cases hid
    · rw [slot_setSlot_ne _ hτ] at hd
      exact absurd (P.slot_unique h hd).1 hτ

theorem Rows.progress (P : Protocol O w) (R : Rows O w) (h : w.slot σ = some c)
    (hp : Progress O K w c v c') : Rows O (v.setSlot σ (some c')) := by
  have hcont := hp.continues
  cases hp with
  | permit =>
    refine R.progress_frame P h hcont rfl (fun _ => rfl) rfl rfl (fun hn => ?_) fun id hid hwr => ?_
    · dsimp only
      split
      · nofun
      · exact hn
    · dsimp only at hid
      split at hid
      · cases hid
      · exact ⟨hid, hwr⟩
  | submit queuePoisoned hc => exact R.submit P h queuePoisoned
  | lose hc =>
    refine R.progress_frame P h hcont rfl (fun _ => rfl) rfl rfl (fun _ => nofun) fun id hid hwr => ?_
    rw [hc]
    exact ⟨hid, hwr⟩
  | @acknowledge id next receipt hc hr hs =>
    refine R.acknowledge P h hc hr hs ?_
    cases Seen.dropReceipt (C := O.center) w.writer id with
    | none hj => exact hj
    | submit hcall | journal hcall | execute hcall => cases hcall
  | @fail id receipt error hc hr hs =>
    refine R.progress_frame P h hcont ?_ (fun _ => rfl) rfl rfl (fun _ => nofun) nofun
    cases Seen.dropReceipt (C := O.center) w.writer id with
    | none hj => exact hj
    | submit hcall | journal hcall | execute hcall => cases hcall
  | settle | report | request =>
    exact R.progress_frame P h hcont rfl (fun _ => rfl) rfl rfl (fun hn => hn)
      fun id hid hwr => ⟨hid, hwr⟩

/-! ## The writer -/

theorem request_key (P : Protocol O w) (C : Contents O w) (h : w.slot σ = some c) :
    (O.request w c.snapshot).key = O.key := by
  rw [WriteRequest.key, request, key, (C.slot P h).1.operationId]

/-- Nobody else writes a checkpoint under the identity of the operation. -/
theorem foreign_write (hf : O.foreign W (.journal call)) :
    ∀ k m s, call.write? = some (k, m, .snapshot s) → O.key ≠ k := by
  intro k m s hw
  cases call with
  | writeCheckpoint runtimeId previous snapshot reconcile faults =>
    cases hw
    exact (of_decide_eq_true hf).symm
  | reconcile | forget | recoverStorage => cases hw

theorem Rows.execute (P : Protocol O w) (C : Contents O w) (R : Rows O w) (h : w.slot σ = some c)
    {i id : ℕ} {faults : TransactionFaults} (hid : id ∈ c.attempt.receipt?)
    (hj : W.journal = (O.center.write w.writer.journal (O.request w c.snapshot) faults).1)
    (he : W.executed = w.writer.executed ++
      [⟨i, id, (O.center.write w.writer.journal (O.request w c.snapshot) faults).2⟩]) :
    Rows O { w with writer := W } := by
  have hkey : (O.runtimeId, c.snapshot.operationId) = O.key := request_key P C h
  obtain ⟨htable, hok⟩ := writeCheckpoint_effect R.sound O.runtimeId w.revision c.snapshot true faults
  rw [hkey] at htable hok
  have hn : c.attempt ≠ .acknowledged := by
    intro hack
    rw [hack] at hid
    cases hid
  have hrow : ∀ r, O.stored { w with writer := W } = some r →
      O.stored w = some r ∨ r = O.next w c := by
    intro r hr
    have hr : O.center.journal.record W.journal.table O.key = some r := hr
    rw [hj] at hr
    rcases htable with ht | hput
    · left
      rw [stored, ← ht]
      exact hr
    · exact .inr (Option.some.inj (hr.symm.trans hput.record_self))
  refine ⟨?_, fun r hr hrn => ?_, fun τ d id' hd hid' hwr r hr hrn => ?_⟩
  · change O.center.journal.Sound W.journal.table
    rw [hj]
    rcases htable with ht | hput
    · exact ht ▸ R.sound
    · exact hput.sound R.sound
  · rcases hrow r hr with hr | hr
    · exact R.row r hr hrn
    · exact .inr ⟨σ, c, h, hn, hr⟩
  · obtain ⟨-, rfl⟩ := P.slot_unique h hd
    rcases hrow r hr with hr₀ | hr₀
    · obtain ⟨x, hx, hxid, m, hm⟩ := hwr
      have hx : x ∈ W.executed := hx
      rw [he, mem_append] at hx
      rcases hx with hx | hx
      · exact R.wrote τ d id' hd hid' ⟨x, hx, hxid, m, hm⟩ r hr₀ hrn
      · cases mem_singleton.1 hx
        obtain ⟨record, hrec, -⟩ := map_eq_ok.1 hm
        obtain ⟨rfl, hst⟩ := hok record hrec
        have hr : O.center.journal.record W.journal.table O.key = some r := hr
        rw [hj] at hr
        exact Option.some.inj (hr.symm.trans hst)
    · exact hr₀

/-- The executions stay, and an unattested record of the operation is the old one. -/
theorem Rows.keep (R : Rows O w) (hs : O.center.journal.Sound W.journal.table)
    (hk : ∀ r, O.stored { w with writer := W } = some r → r.reconciliation = none →
      O.stored w = some r)
    (hx : ∀ σ c id, w.slot σ = some c → id ∈ c.attempt.receipt? → Wrote W id → Wrote w.writer id) :
    Rows O { w with writer := W } where
  sound := hs
  row r hr hn := R.row r (hk r hr hn) hn
  wrote σ c id h hid hw r hr hn := R.wrote σ c id h hid (hx σ c id h hid hw) r (hk r hr hn) hn

theorem Rows.writerMove (P : Protocol O w) (C : Contents O w) (R : Rows O w) (hf : O.foreign w.writer call) :
    Rows O { w with writer := O.center.perform w.writer call } := by
  obtain ⟨n, p, W⟩ := P.writer
  cases W.seen call with
  | none hj he hc | submit hcall hj he hc => exact R.frame hj he (fun _ => rfl) rfl rfl
  | @journal journalCall hcall hj he hc =>
    subst hcall
    refine R.keep ?_ (fun r hr hn => ?_) fun σ c id _ _ hw => by rwa [Wrote, he] at hw
    · rw [hj]
      exact (perform_effect R.sound journalCall).1.sound R.sound
    · have hr : O.center.journal.record (O.center.perform w.writer (.journal journalCall)).journal.table
        O.key = some r := hr
      rw [hj] at hr
      rcases perform_record R.sound (foreign_write hf) with h | ⟨-, r', h, ha⟩ | ⟨-, h⟩
      · rw [stored, ← h, hr]
      · cases hr.symm.trans h
        rw [hn] at ha
        cases ha
      · exact absurd (hr.symm.trans h) nofun
  | @execute i id x fault faults hcall hx hn hj he hc =>
    by_cases hk : x.1.key = O.key
    · rcases P.flight id x hx hk with hdone | ⟨σ, c, h, hid⟩
      · exact absurd hdone hn
      · obtain ⟨y, hy, hreq⟩ := (P.held σ c h).receipt id hid
        cases hy.symm.trans hx
        rw [hreq] at hj he
        exact R.execute P C h hid hj he
    · obtain ⟨htable, -⟩ := writeCheckpoint_effect R.sound x.1.runtimeId x.1.expectedRevision
        x.1.snapshot x.1.reconcile faults
      refine R.keep ?_ (fun r hr _ => ?_) fun σ c id' h hid hw => ?_
      · rw [hj]
        rcases htable with ht | hput
        · exact (congrArg O.center.journal.Sound ht).mpr R.sound
        · exact hput.sound R.sound
      · have hr : O.center.journal.record (O.center.perform w.writer call).journal.table O.key =
          some r := hr
        rw [hj] at hr
        rcases htable with ht | hput
        · exact (congrArg (O.center.journal.record · O.key) ht).symm.trans hr
        · exact (hput.record_ne (Ne.symm hk)).symm.trans hr
      · obtain ⟨y, hy, hreq⟩ := (P.held σ c h).receipt id' hid
        obtain ⟨e, hmem, rfl, m, hm⟩ := hw
        rw [he, mem_append] at hmem
        rcases hmem with hmem | hmem
        · exact ⟨e, hmem, rfl, m, hm⟩
        · cases mem_singleton.1 hmem
          cases hy.symm.trans hx
          exact absurd (by rw [hreq]; exact request_key P C h) hk

/-! ## Moves and runs -/

theorem Rows.move (P : Protocol O w) (C : Contents O w) (R : Rows O w) (m : Move O K w v) :
    Rows O v := by
  have fresh : ∀ {u : OperationWorld} {σ effect snapshot}, (∀ τ, u.slot τ = none) →
      ∀ τ d, (u.retain σ effect snapshot).slot τ = some d → d.attempt = .new := by
    intro u σ effect snapshot free τ d hd
    by_cases hτ : τ = σ
    · subst hτ
      rw [OperationWorld.retain, OperationWorld.slot_setSlot] at hd
      cases hd
      rfl
    · rw [OperationWorld.retain, OperationWorld.slot_setSlot_ne _ hτ] at hd
      exact absurd ((free τ).symm.trans hd) (by rintro ⟨⟩)
  have free : w.transition = none → w.completion = none → ∀ τ, w.slot τ = none := by
    intro ht hc τ
    cases τ
    · exact ht
    · exact hc
  cases m with
  | writer hf => exact R.writerMove P C hf
  | cancel | gate | ledger | issue | complete | authorize =>
    exact R.frame rfl rfl (fun _ => rfl) rfl rfl
  | capture ht hp =>
    have hfree := free ht (P.completion_none hp)
    exact R.retain hfree rfl (fresh hfree) rfl
  | finalize hc =>
    obtain ⟨-, hp, ht, -⟩ := checkFinalization_ok hc
    have hfree := free ht (P.completion_none hp)
    exact R.retain hfree rfl (fresh hfree) rfl
  | close hc =>
    obtain ⟨-, -, hp, -, ht, -⟩ := checkOutcome_ok hc
    have hfree := free ht (P.completion_none hp)
    exact R.retain hfree rfl (fresh hfree) rfl
  | retain hc hn =>
    obtain ⟨-, hp⟩ := checkTerminal_ok hc
    have hfree := free (P.exclusive (by rw [hp]; rfl)) hn
    exact R.retain hfree rfl (fresh hfree) rfl
  | progress h hp => exact R.progress P h hp
  | consume hc hack | publishPhase hc hack =>
    have hfree := P.slot_free (σ := .transition) (τ := .completion) hc (by rintro ⟨⟩)
    refine R.release P (σ := .transition) hc hack rfl (fun τ => ?_) rfl
    cases τ
    · rfl
    · exact hfree
  | publishCompletion hc hack =>
    have hfree := P.slot_free (σ := .completion) (τ := .transition) hc (by rintro ⟨⟩)
    refine R.release P (σ := .completion) hc hack rfl (fun τ => ?_) rfl
    cases τ
    · exact hfree
    · rfl

/-- Nothing is stored under the identity of an operation when it is admitted. -/
def Fresh (O : Operation) (earlier : List JournalCall) : Prop :=
  O.center.journal.record (O.center.journal.run earlier).table O.key = none

theorem Rows.moves (I : Inv O w) (R : Rows O w) (m : Moves O K w v) : Rows O v := by
  induction m with
  | refl => exact R
  | tail ms m ih =>
    have J := I.moves ms
    exact ih.move J.protocol J.contents m

theorem Rows.new (hf : O.Fresh earlier) :
    Rows O (O.new (WriterCenter.new (O.center.journal.run earlier))) := by
  refine ⟨run_sound earlier, fun r hr => ?_, fun σ c id h => ?_⟩
  · exact absurd (hf.symm.trans hr) nofun
  · cases σ <;> cases h

theorem Rows.run (hq : O.backend = .queued) (hf : O.Fresh earlier) (calls : List OperationCall) :
    Rows O (O.run earlier calls) := by
  have I : Inv O (O.new (WriterCenter.new (O.center.journal.run earlier))) := .start O earlier
  exact (Rows.new hf).moves I (I.run_moves hq calls)

end Operation

end LuaSkills.Embedded
