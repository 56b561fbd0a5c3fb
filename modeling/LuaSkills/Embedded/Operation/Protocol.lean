import LuaSkills.Embedded.Operation.Moves

/-!
# The checkpoint protocol

What holds of the retained candidate, its receipt, the revisions and the counts in every state of a
queued operation. At most one slot is taken; its candidate waits for the only attempt of the operation
that the writer still owes an outcome, and that attempt carries the candidate and the last
acknowledged revision.
-/

namespace LuaSkills.Embedded

open WriterWorld List Option Except Nat

variable {id : ℕ} {receipt : ReceiptState} {snapshot : OperationSnapshot} {ledger : LedgerState}

namespace OperationWorld
variable (w : OperationWorld)

def submitted (k : ℕ) : ℕ := w.submissions.countP fun s => s.candidate = k

/-- The explicit retry requests of a candidate. -/
def retried (k : ℕ) : ℕ := w.retries.count k

end OperationWorld

namespace Operation

/-- The candidate could be submitted without a further request. -/
def Renewed (c : PendingCheckpoint) : Prop := c.attempt = .new ∨ c.retry = .requested

instance (c : PendingCheckpoint) : Decidable (Renewed c) := inferInstanceAs (Decidable (_ ∨ _))

structure Held (O : Operation) (w : OperationWorld) (c : PendingCheckpoint) : Prop where
  known : c.candidate < w.candidates
  receipt : ∀ id ∈ c.attempt.receipt?, ∃ x ∈ w.writer.charges[id]?, x.1 = O.request w c.snapshot
  acknowledged : c.attempt = .acknowledged →
    w.acknowledged.getLast?.map Prod.snd = some c.snapshot
  requested : c.retry = .requested → c.attempt.isFailed
  waiting : c.failure.isSome → c.retry = .waiting →
    c.attempt.isFailed ∨ ∃ id e, c.attempt = .unobservable id e
  started : ∀ id, c.effect = some (.start id) →
    ∃ r ∈ c.snapshot.hostEffects, r.effectId = id ∧ r.phase = .running
  count : w.submitted c.candidate + (if Renewed c then 1 else 0) ≤ 1 + w.retried c.candidate

/-- Submissions are bounded by explicit requests and belong to captured candidates. -/
structure Counted (w : OperationWorld) : Prop where
  le : ∀ k, w.submitted k ≤ 1 + w.retried k
  known : ∀ s ∈ w.submissions, s.candidate < w.candidates

structure Revised (O : Operation) (w : OperationWorld) : Prop where
  revisions : w.acknowledged.map Prod.fst = range' 1 w.acknowledged.length
  revision : w.revision = w.acknowledged.getLast?.map Prod.fst
  written : ∀ m s, (m, s) ∈ w.acknowledged → ∃ x ∈ w.writer.executed, x.result = .ok m ∧
    ∃ y ∈ w.writer.charges[x.attempt]?, y.1.runtimeId = O.runtimeId ∧ y.1.snapshot = s

structure Protocol (O : Operation) (w : OperationWorld) : Prop where
  writer : ∃ n p, w.writer.Inv O.center n p
  ordered : w.disordered = false
  exclusive : w.pendingCompletion.isSome → w.transition = none
  gate : w.gate.isSome → w.pendingCompletion = none
  completion : ∀ c ∈ w.completion, w.pendingCompletion = some c.snapshot
  held : ∀ σ c, w.slot σ = some c → Held O w c
  flight : ∀ id x, w.writer.charges[id]? = some x → x.1.key = O.key →
    w.writer.Completed id ∨ ∃ σ c, w.slot σ = some c ∧ id ∈ c.attempt.receipt?
  counted : Counted w
  revised : Revised O w

variable {O : Operation} {K : Allowance}
  {w v : OperationWorld} {c c' : PendingCheckpoint} {σ : Slot}

/-! ## Frames -/

theorem Held.frame (H : Held O w c) (hc : w.candidates ≤ v.candidates)
    (hg : Grows w.writer v.writer) (hr : v.revision = w.revision)
    (ha : v.acknowledged = w.acknowledged) (hs : v.submissions = w.submissions)
    (ht : v.retries = w.retries) : Held O v c where
  known := H.known.trans_le hc
  receipt id hid := by
    obtain ⟨x, hx, h⟩ := H.receipt id hid
    exact ⟨x, hg.charge hx, by rw [h, request, request, hr]⟩
  acknowledged h := ha ▸ H.acknowledged h
  requested := H.requested
  waiting := H.waiting
  started := H.started
  count := by
    rw [OperationWorld.submitted, OperationWorld.retried, hs, ht]
    exact H.count

theorem Counted.frame (H : Counted w) (hc : w.candidates ≤ v.candidates)
    (hs : v.submissions = w.submissions) (ht : v.retries = w.retries) : Counted v where
  le k := by
    rw [OperationWorld.submitted, OperationWorld.retried, hs, ht]
    exact H.le k
  known s h := (H.known s (hs ▸ h)).trans_le hc

theorem Revised.frame (H : Revised O w) (hg : Grows w.writer v.writer)
    (hr : v.revision = w.revision) (ha : v.acknowledged = w.acknowledged) : Revised O v where
  revisions := by rw [ha, H.revisions]
  revision := by rw [hr, ha, H.revision]
  written m s h := by
    obtain ⟨x, hx, hm, y, hy, hk⟩ := H.written m s (ha ▸ h)
    exact ⟨x, hg.executed.subset hx, hm, y, hg.charge hy, hk⟩

/-! ## One candidate at a time -/

theorem Protocol.slot_unique (P : Protocol O w) (h : w.slot σ = some c) (h' : w.slot τ = some c') :
    τ = σ ∧ c' = c := by
  have exclude : ∀ {d d'}, w.transition = some d → w.completion = some d' → False := by
    intro d d' hd hd'
    have hp := P.completion d' hd'
    rw [P.exclusive (by rw [hp]; rfl)] at hd
    cases hd
  cases σ <;> cases τ
  · exact ⟨rfl, some.inj (h'.symm.trans h)⟩
  · exact (exclude h h').elim
  · exact (exclude h' h).elim
  · exact ⟨rfl, some.inj (h'.symm.trans h)⟩

theorem Protocol.slot_free (P : Protocol O w) (h : w.slot σ = some c) (hτ : τ ≠ σ) : w.slot τ = none := by
  cases h' : w.slot τ with
  | none => rfl
  | some d => exact absurd (P.slot_unique h h').1 hτ

/-- An acknowledged candidate is the last one acknowledged. -/
theorem Protocol.last_acknowledged (P : Protocol O w) (h : w.slot σ = some c)
    (hack : c.attempt = .acknowledged) : ∃ m, w.acknowledged.getLast? = some (m, c.snapshot) := by
  obtain ⟨⟨m, s⟩, hl, hs⟩ := map_eq_some_iff.1 ((P.held σ c h).acknowledged hack)
  cases (hs : s = c.snapshot)
  exact ⟨m, hl⟩

/-- The attempts of the operation that are owed an outcome: the one its candidate waits for. -/
theorem Protocol.pending (P : Protocol O w) (h : w.slot σ = some c) {x : WriteRequest × ℕ}
    (hx : w.writer.charges[id]? = some x) (hk : x.1.key = O.key) :
    w.writer.Completed id ∨ id ∈ c.attempt.receipt? := by
  rcases P.flight id x hx hk with hc | ⟨τ, d, hd, hid⟩
  · exact .inl hc
  · obtain ⟨-, rfl⟩ := P.slot_unique h hd
    exact .inr hid

/-- What a move on the retained candidate has to keep. -/
theorem Protocol.update (P : Protocol O w) (h : w.slot σ = some c)
    (hs : c'.snapshot = c.snapshot)
    (hv : ∀ τ, v.slot τ = w.slot τ) (hp : v.pendingCompletion = w.pendingCompletion)
    (hgate : v.gate = w.gate) (hd : v.disordered = w.disordered)
    (writer : ∃ n p, v.writer.Inv O.center n p) (held : Held O v c')
    (flight : ∀ id x, v.writer.charges[id]? = some x → x.1.key = O.key →
      v.writer.Completed id ∨ id ∈ c'.attempt.receipt?)
    (counted : Counted v) (revised : Revised O v) : Protocol O (v.setSlot σ (some c')) := by
  refine ⟨writer, hd.trans P.ordered, ?_, ?_, ?_, ?_, ?_, ⟨counted.le, counted.known⟩,
    ⟨revised.revisions, revised.revision, revised.written⟩⟩
  · intro hsome
    have hsome : w.pendingCompletion.isSome := hp ▸ hsome
    have ht : w.slot .transition = none := P.exclusive hsome
    cases σ with
    | transition => rw [ht] at h; cases h
    | completion => exact (hv .transition).trans ht
  · intro hg
    exact hp.trans (P.gate (hgate ▸ hg))
  · intro d hd
    cases σ with
    | transition =>
      have hd : w.slot .completion = some d := (hv .completion).symm.trans hd
      exact hp.trans (P.completion d hd)
    | completion =>
      cases hd
      exact hs ▸ hp.trans (P.completion c h)
  · intro τ d hd
    by_cases hτ : τ = σ
    · subst hτ
      rw [OperationWorld.slot_setSlot] at hd
      cases hd
      exact held.frame (le_refl _) (.refl _) rfl rfl rfl rfl
    · rw [OperationWorld.slot_setSlot_ne _ hτ, hv] at hd
      exact absurd (P.slot_unique h hd).1 hτ
  · intro id x hx hk
    rcases flight id x hx hk with hc | hid
    · exact .inl hc
    · exact .inr ⟨σ, c', OperationWorld.slot_setSlot .., hid⟩

/-! ## Revisions -/

theorem Revised.revision_getD (H : Revised O w) : w.revision.getD 0 = w.acknowledged.length := by
  rw [H.revision, ← getLast?_map, H.revisions]
  cases w.acknowledged.length with
  | zero => rfl
  | succ n => simp [range'_concat, add_comm]

theorem Revised.acknowledge {next : ℕ} (H : Revised O w) (hn : next = w.acknowledged.length + 1)
    (hv : v.acknowledged = w.acknowledged ++ [(next, c.snapshot)]) (hr : v.revision = some next)
    (hg : Grows w.writer v.writer) (hx : ∃ x ∈ v.writer.executed, x.result = .ok next ∧
      ∃ y ∈ v.writer.charges[x.attempt]?, y.1.runtimeId = O.runtimeId ∧ y.1.snapshot = c.snapshot) :
    Revised O v where
  revisions := by
    rw [hv, map_append, H.revisions, length_append, length_singleton,
      range'_concat, hn, one_mul, add_comm 1]
    rfl
  revision := by simp [hv, hr]
  written m s h := by
    rw [hv, mem_append] at h
    rcases h with h | h
    · obtain ⟨x, hx, hm, y, hy, hk⟩ := H.written m s h
      exact ⟨x, hg.executed.subset hx, hm, y, hg.charge hy, hk⟩
    · cases mem_singleton.1 h
      exact hx

/-! ## Driving the candidate -/

theorem Counted.retry (H : Counted w) (k : ℕ) :
    Counted { w with retries := w.retries ++ [k] } ∧
      w.submitted k + 1 ≤ 1 + ({ w with retries := w.retries ++ [k] } : OperationWorld).retried k := by
  have hk : ∀ j, w.retried j ≤
      ({ w with retries := w.retries ++ [k] } : OperationWorld).retried j := by
    intro j
    simp only [OperationWorld.retried, count_append]
    exact le_add_right _ _
  refine ⟨⟨fun j => (H.le j).trans (Nat.add_le_add_left (hk j) 1), H.known⟩, ?_⟩
  have hle := H.le k
  simp only [OperationWorld.retried, count_append, count_singleton_self] at hle ⊢
  omega

/-- A candidate that has been submitted and is not renewed. -/
theorem Counted.settled (H : Counted w) (hn : c.attempt ≠ .new) (hr : c.retry ≠ .requested) :
    w.submitted c.candidate + (if Renewed c then 1 else 0) ≤ 1 + w.retried c.candidate := by
  have : ¬ Renewed c := not_or.2 ⟨hn, hr⟩
  rw [if_neg this]
  exact H.le _

section
variable (P : Protocol O w) (h : w.slot σ = some c)
include P h

theorem Protocol.not_requested (hf : c.attempt.isFailed = false) : c.retry ≠ .requested := by
  intro hr
  rw [(P.held σ c h).requested hr] at hf
  cases hf

theorem Protocol.permit {retry : Bool} (hp : retry ∨ c.retry = .requested) :
    Protocol O ({ w with
      retries := if retry ∧ c.attempt.isFailed then w.retries ++ [c.candidate] else w.retries
    }.setSlot σ (some { c with
      retry := .retrying, attempt := if c.attempt.isFailed then .new else c.attempt })) := by
  have H := P.held σ c h
  have hcount : w.submitted c.candidate + (if Renewed c then 1 else 0) ≤ _ := H.count
  cases hf : c.attempt.isFailed with
  | false =>
    simp only [Bool.false_eq_true, and_false, if_false]
    refine P.update h rfl (fun _ => rfl) rfl rfl rfl P.writer ?_ (fun id x => P.pending h)
      (P.counted.frame (le_refl _) rfl rfl) (P.revised.frame (.refl _) rfl rfl)
    refine ⟨H.known, H.receipt, H.acknowledged, nofun, nofun, H.started, ?_⟩
    refine Nat.le_trans (Nat.add_le_add_left ?_ _) hcount
    have hr : ¬ c.retry = .requested := P.not_requested h hf
    simp [Renewed, hr]
  | true =>
    have hn : c.attempt.receipt? = none := by
      cases hc : c.attempt <;> first | rfl | simp [hc, Attempt.isFailed] at hf
    have flight : ∀ id x, w.writer.charges[id]? = some x → x.1.key = O.key →
        w.writer.Completed id ∨ id ∈ Attempt.new.receipt? := by
      intro id x hx hk
      have := P.pending h hx hk
      rwa [hn] at this
    cases retry with
    | true =>
      simp only [and_self, if_true]
      obtain ⟨hcounted, hle⟩ := P.counted.retry c.candidate
      refine P.update h rfl (fun _ => rfl) rfl rfl rfl P.writer ?_ flight hcounted
        (P.revised.frame (.refl _) rfl rfl)
      refine ⟨H.known, nofun, nofun, nofun, nofun, H.started, ?_⟩
      rw [if_pos (.inl rfl)]
      exact hle
    | false =>
      simp only [Bool.false_eq_true, false_and, if_false, if_true]
      have hr : c.retry = .requested := by simpa using hp
      rw [if_pos (.inr hr)] at hcount
      refine P.update h rfl (fun _ => rfl) rfl rfl rfl P.writer ?_ flight P.counted
        (P.revised.frame (.refl _) rfl rfl)
      refine ⟨H.known, nofun, nofun, nofun, nofun, H.started, ?_⟩
      rw [if_pos (.inl rfl)]
      exact hcount

theorem Protocol.lose (hc : c.attempt = .submitted id) :
    Protocol O (w.setSlot σ (some { c with
      attempt := .unobservable id WriterCenter.poisoned })) := by
  have H := P.held σ c h
  have hr := P.not_requested h (by rw [hc]; rfl)
  refine P.update h rfl (fun _ => rfl) rfl rfl rfl P.writer ?_ ?_ P.counted P.revised
  · refine ⟨H.known, ?_, nofun, fun h => absurd h hr, fun _ _ => .inr ⟨id, _, rfl⟩, H.started, ?_⟩
    · intro id' hid'
      cases hid'
      exact H.receipt id (by rw [hc]; rfl)
    · exact P.counted.settled nofun hr
  · intro id' x hx hk
    have := P.pending h hx hk
    rwa [hc] at this

theorem Protocol.settle :
    Protocol O (w.setSlot σ (some { c with failure := none })) := by
  have H := P.held σ c h
  refine P.update h rfl (fun _ => rfl) rfl rfl rfl P.writer ?_ (fun id x => P.pending h) P.counted
    P.revised
  exact ⟨H.known, H.receipt, H.acknowledged, H.requested, nofun, H.started, H.count⟩

theorem Protocol.report {error : EmbeddedError}
    (hc : c.attempt = .failed error ∨ ∃ id, c.attempt = .unobservable id error) :
    Protocol O (w.setSlot σ (some { c with failure := some error, retry := .waiting })) := by
  have H := P.held σ c h
  have hn : c.attempt ≠ .new := by
    rcases hc with hc | ⟨id, hc⟩ <;> simp [hc]
  refine P.update h rfl (fun _ => rfl) rfl rfl rfl P.writer ?_ (fun id x => P.pending h) P.counted
    P.revised
  refine ⟨H.known, H.receipt, H.acknowledged, nofun, fun _ _ => ?_, H.started, ?_⟩
  · rcases hc with hc | ⟨id, hc⟩
    · exact .inl (by rw [hc]; rfl)
    · exact .inr ⟨id, error, hc⟩
  · exact P.counted.settled hn nofun

theorem Protocol.requestRetry (hf : c.failure.isSome) (hr : c.retry = .waiting)
    (hu : ∀ id e, c.attempt ≠ .unobservable id e) :
    Protocol O ({ w with retries := w.retries ++ [c.candidate] }.setSlot σ
      (some { c with retry := .requested })) := by
  have H := P.held σ c h
  have hfailed : c.attempt.isFailed :=
    (H.waiting hf hr).resolve_right fun ⟨id, e, he⟩ => hu id e he
  obtain ⟨hcounted, hle⟩ := P.counted.retry c.candidate
  refine P.update h rfl (fun _ => rfl) rfl rfl rfl P.writer ?_ (fun id x => P.pending h) hcounted
    (P.revised.frame (.refl _) rfl rfl)
  refine ⟨H.known, H.receipt, H.acknowledged, fun _ => hfailed, nofun, H.started, ?_⟩
  rw [if_pos (.inr rfl)]
  exact hle

/-- The candidate was submitted and the writer has published the outcome. -/
theorem Protocol.completed (hc : c.attempt = .submitted id) (hr : w.writer.receipts[id]? = some receipt)
    (hs : receipt.snapshot = .ofResult result) : receipt.request = O.request w c.snapshot ∧
      ∀ id x, w.writer.charges[id]? = some x → x.1.key = O.key → w.writer.Completed id := by
  obtain ⟨n, p, W⟩ := P.writer
  obtain ⟨x, hx, hreq⟩ := (P.held σ c h).receipt id (by rw [hc]; rfl)
  rw [WriterWorld.charges, getElem?_map, hr] at hx
  cases hx
  refine ⟨hreq, fun id' x hx hk => ?_⟩
  rcases P.pending h hx hk with hdone | hid
  · exact hdone
  · rw [hc] at hid
    cases hid
    exact (W.outcomes.phase_iff hr).1 (hs ▸ ofResult_phase _)

theorem Protocol.submit (queuePoisoned : Bool) (hc : c.attempt = .new) :
    Protocol O ({ w with
        writer := (O.center.submitRequest w.writer (O.request w c.snapshot) queuePoisoned).1
        submissions := w.submissions ++ [Submission.mk c.candidate c.snapshot w.revision] }.setSlot σ
      (some { c with
        attempt := .ofSubmission
          (O.center.submitRequest w.writer (O.request w c.snapshot) queuePoisoned).2 })) := by
  have H := P.held σ c h
  have hnr := P.not_requested h (by rw [hc]; rfl)
  have hwait : ¬ (c.failure.isSome ∧ c.retry = .waiting) := by
    rintro ⟨hf, hw⟩
    rcases H.waiting hf hw with hfail | ⟨id, e, hu⟩
    · simp [hc, Attempt.isFailed] at hfail
    · simp [hc] at hu
  have hcount : w.submitted c.candidate + 1 ≤ 1 + w.retried c.candidate := by
    have := H.count
    rwa [if_pos (.inl hc)] at this
  obtain ⟨n, p, W⟩ := P.writer
  have W' := W.submitRequest (O.request w c.snapshot) queuePoisoned
  have hg := (Quiet.submitRequest (C := O.center) w.writer (O.request w c.snapshot)
    queuePoisoned).toGrows
  have hsub : ∀ k, (w.submissions ++ [Submission.mk c.candidate c.snapshot w.revision]).countP
      (fun s => s.candidate = k) = w.submitted k + if c.candidate = k then 1 else 0 := by
    intro k
    simp [OperationWorld.submitted, countP_append, countP_singleton]
  refine P.update h rfl (fun _ => rfl) rfl rfl rfl ⟨n, p, W'⟩ ?_ ?_ ?_ (P.revised.frame hg rfl rfl)
  · refine ⟨H.known, ?_, ?_, fun h => absurd h hnr, fun hf hw => absurd ⟨hf, hw⟩ hwait, H.started, ?_⟩
    · rcases submitRequest_result (C := O.center) w.writer (O.request w c.snapshot) queuePoisoned
        with ⟨e, he⟩ | ⟨bytes, hb⟩
      · simp [he, Attempt.ofSubmission, Attempt.receipt?]
      · intro id hid
        simp only [hb] at hid ⊢
        cases hid
        rw [charges_admitted]
        refine ⟨(O.request w c.snapshot, bytes), ?_, rfl⟩
        rw [← length_charges, getElem?_concat_length]
        rfl
    · intro hack
      simp only [Attempt.ofSubmission] at hack
      split at hack <;> cases hack
    · have hnew : ¬ Renewed { c with
          attempt := .ofSubmission
            (O.center.submitRequest w.writer (O.request w c.snapshot) queuePoisoned).2 } := by
        rintro (hn | hn)
        · simp only [Attempt.ofSubmission] at hn
          split at hn <;> cases hn
        · exact hnr hn
      rw [if_neg hnew]
      refine le_of_eq_of_le (hsub c.candidate) ?_
      rw [if_pos rfl]
      exact hcount
  · intro id x hx hk
    rcases submitRequest_result (C := O.center) w.writer (O.request w c.snapshot) queuePoisoned
      with ⟨e, he⟩ | ⟨bytes, hb⟩
    · simp only [he] at hx ⊢
      have := P.pending h hx hk
      rwa [hc] at this
    · simp only [hb, charges_admitted] at hx ⊢
      rw [getElem?_append] at hx
      split at hx
      · have := P.pending h hx hk
        rw [hc] at this
        exact .inl (this.resolve_right (by simp [Attempt.receipt?]))
      · next hlt =>
        have hid := (List.getElem?_eq_some_iff.1 hx).1
        rw [length_singleton, length_charges] at hid
        rw [length_charges] at hlt
        obtain rfl : id = w.writer.receipts.length := by omega
        exact .inr rfl
  · refine ⟨fun k => le_of_eq_of_le (hsub k) ?_, fun s hs => ?_⟩
    · split
      · next hk => exact hk ▸ hcount
      · exact P.counted.le k
    · rcases mem_append.1 hs with hs | hs
      · exact P.counted.known s hs
      · cases mem_singleton.1 hs
        exact H.known

theorem Protocol.acknowledge {next : ℕ} (hc : c.attempt = .submitted id)
    (hr : w.writer.receipts[id]? = some receipt)
    (hs : receipt.snapshot = .ofResult (.ok next)) : Protocol O ({ w with
        writer := O.center.perform w.writer (.dropReceipt id)
        revision := some next
        acknowledged := w.acknowledged ++ [(next, c.snapshot)] }.setSlot σ
      (some { c with attempt := .acknowledged })) := by
  have H := P.held σ c h
  have hnr := P.not_requested h (by rw [hc]; rfl)
  obtain ⟨hreq, hdone⟩ := P.completed h hc hr hs
  obtain ⟨n, p, W⟩ := P.writer
  obtain ⟨hinv, hg⟩ := W.call (.dropReceipt id)
  obtain ⟨⟨i, hi⟩, hnext⟩ := W.acknowledged hr hs
  rw [hreq, request, P.revised.revision_getD] at hnext
  refine P.update h rfl (fun _ => rfl) rfl rfl rfl hinv ?_ ?_ (P.counted.frame (le_refl _) rfl rfl)
    (P.revised.acknowledge hnext rfl rfl hg ?_)
  · refine ⟨H.known, nofun, fun _ => by simp, fun h => absurd h hnr, fun hf hw => ?_, H.started, ?_⟩
    · rcases H.waiting hf hw with hfail | ⟨id', e, hu⟩
      · simp [hc, Attempt.isFailed] at hfail
      · simp [hc] at hu
    · exact (P.counted.frame (le_refl _) rfl rfl).settled nofun hnr
  · intro id' x hx hk
    rw [charges_dropReceipt] at hx
    exact .inl ((hg.completed.map Prod.fst).subset (hdone id' x hx hk))
  · refine ⟨_, hg.executed.subset hi, rfl, (receipt.request, receipt.bytes), ?_, ?_⟩
    · rw [charges_dropReceipt, WriterWorld.charges, getElem?_map, hr]
      rfl
    · rw [hreq]
      exact ⟨rfl, rfl⟩

theorem Protocol.fail {error : EmbeddedError}
    (hc : c.attempt = .submitted id) (hr : w.writer.receipts[id]? = some receipt)
    (hs : receipt.snapshot = .ofResult (.error error)) :
    Protocol O ({ w with writer := O.center.perform w.writer (.dropReceipt id) }.setSlot σ
      (some { c with attempt := .failed error })) := by
  have H := P.held σ c h
  have hnr := P.not_requested h (by rw [hc]; rfl)
  obtain ⟨-, hdone⟩ := P.completed h hc hr hs
  obtain ⟨n, p, W⟩ := P.writer
  obtain ⟨hinv, hg⟩ := W.call (.dropReceipt id)
  refine P.update h rfl (fun _ => rfl) rfl rfl rfl hinv ?_ ?_ (P.counted.frame (le_refl _) rfl rfl)
    (P.revised.frame hg rfl rfl)
  · refine ⟨H.known, nofun, nofun, fun _ => rfl, fun _ _ => .inl rfl, H.started, ?_⟩
    exact (P.counted.frame (le_refl _) rfl rfl).settled nofun hnr
  · intro id' x hx hk
    rw [charges_dropReceipt] at hx
    exact .inl ((hg.completed.map Prod.fst).subset (hdone id' x hx hk))

theorem Protocol.progress (hp : Progress O K w c v c') : Protocol O (v.setSlot σ (some c')) := by
  cases hp with
  | permit hr _ => exact P.permit h hr
  | submit queuePoisoned hc => exact P.submit h queuePoisoned hc
  | lose hc => exact P.lose h hc
  | acknowledge hc hr hs => exact P.acknowledge h hc hr hs
  | fail hc hr hs => exact P.fail h hc hr hs
  | settle => exact P.settle h
  | report hc => exact P.report h hc
  | request _ hf hr hu => exact P.requestRetry h hf hr hu

end

/-! ## Capturing and consuming -/

/-- Fields that the protocol does not read may change. -/
theorem Protocol.frame (P : Protocol O w) (hw : v.writer = w.writer)
    (hd : v.disordered = w.disordered) (hp : v.pendingCompletion = w.pendingCompletion)
    (hslot : ∀ τ, v.slot τ = w.slot τ) (hgate : v.gate.isSome → w.pendingCompletion = none)
    (hc : v.candidates = w.candidates) (hr : v.revision = w.revision)
    (ha : v.acknowledged = w.acknowledged) (hs : v.submissions = w.submissions)
    (ht : v.retries = w.retries) : Protocol O v where
  writer := hw ▸ P.writer
  ordered := hd.trans P.ordered
  exclusive hsome := (hslot .transition).trans (P.exclusive (hp ▸ hsome))
  gate hg := hp.trans (hgate hg)
  completion d h := hp.trans (P.completion d ((hslot .completion).symm.trans h))
  held τ d h := (P.held τ d (hslot τ ▸ h)).frame hc.ge (hw ▸ .refl _) hr ha hs ht
  flight id x hx hk := by
    simp only [hslot, hw] at hx ⊢
    exact P.flight id x hx hk
  counted := P.counted.frame hc.ge hs ht
  revised := P.revised.frame (hw ▸ .refl _) hr ha

/-- A candidate is captured into free slots. -/
theorem Protocol.retain (P : Protocol O w) (ht : w.transition = none) (hc : w.completion = none)
    (hp : w.pendingCompletion = if σ = .completion then some snapshot else none)
    (hstart : ∀ id, effect = some (.start id) →
      ∃ r ∈ snapshot.hostEffects, r.effectId = id ∧ r.phase = .running) :
    Protocol O (w.retain σ effect snapshot) := by
  have free : ∀ τ, w.slot τ = none := by
    intro τ
    cases τ
    · exact ht
    · exact hc
  have hold : ∀ τ d, (w.retain σ effect snapshot).slot τ = some d →
      τ = σ ∧ d = ⟨w.candidates, effect, none, .waiting, snapshot, .new⟩ := by
    intro τ d hd
    by_cases hτ : τ = σ
    · subst hτ
      rw [OperationWorld.retain, OperationWorld.slot_setSlot] at hd
      exact ⟨rfl, (some.inj hd).symm⟩
    · rw [OperationWorld.retain, OperationWorld.slot_setSlot_ne _ hτ] at hd
      exact absurd ((free τ).symm.trans hd) nofun
  have hnone : w.submitted w.candidates = 0 := by
    rw [OperationWorld.submitted, countP_eq_zero]
    intro s hs
    simpa using Nat.ne_of_lt (P.counted.known s hs)
  refine ⟨P.writer, P.ordered, ?_, P.gate, ?_, ?_, ?_, P.counted.frame (le_succ _) rfl rfl,
    P.revised.frame (.refl _) rfl rfl⟩
  · intro hsome
    cases σ with
    | transition =>
      have hp : w.pendingCompletion = none := hp
      exact absurd (hp ▸ (hsome : w.pendingCompletion.isSome)) nofun
    | completion => exact ht
  · intro d hd
    obtain ⟨hσ, rfl⟩ := hold .completion d hd
    rw [if_pos hσ.symm] at hp
    exact hp
  · intro τ d hd
    obtain ⟨-, rfl⟩ := hold τ d hd
    refine ⟨lt_succ_self _, nofun, nofun, nofun, nofun, hstart, ?_⟩
    rw [if_pos (.inl rfl)]
    exact le_of_eq_of_le (congrArg (· + 1) hnone) (le_add_right _ _)
  · intro id x hx hk
    rcases P.flight id x hx hk with hdone | ⟨τ, d, hd, -⟩
    · exact .inl hdone
    · exact absurd ((free τ).symm.trans hd) nofun

/-- An acknowledged candidate waits for nothing and may leave its slot. -/
theorem Protocol.release (P : Protocol O w) (h : w.slot σ = some c)
    (hack : c.attempt = .acknowledged) (hw : v.writer = w.writer)
    (hd : v.disordered = w.disordered) (hfree : ∀ τ, v.slot τ = none)
    (hp : v.gate.isSome → v.pendingCompletion = none)
    (hc : v.candidates = w.candidates) (hr : v.revision = w.revision)
    (ha : v.acknowledged = w.acknowledged) (hs : v.submissions = w.submissions)
    (ht : v.retries = w.retries) : Protocol O v where
  writer := hw ▸ P.writer
  ordered := hd.trans P.ordered
  exclusive _ := hfree .transition
  gate := hp
  completion d h := absurd ((hfree .completion).symm.trans h) nofun
  held τ d h := absurd ((hfree τ).symm.trans h) nofun
  flight id x hx hk := by
    rw [hw] at hx ⊢
    have := P.pending h hx hk
    rw [hack] at this
    exact .inl (this.resolve_right nofun)
  counted := P.counted.frame hc.ge hs ht
  revised := P.revised.frame (hw ▸ .refl _) hr ha

/-! ## The checks of the candidates -/

theorem startCandidate_ok (h : startCandidate w effectId = .ok snapshot) :
    w.snapshot.phase.isTerminal = false ∧ ∃ i record, w.ledger.records[i]? = some record ∧
      record.effectId = effectId ∧ record.phase = .prepared ∧
      snapshot = evidence w (w.ledger.records.set i { record with phase := .running, effects := .unknown }) := by
  simp only [startCandidate, bind_eq_ok, refuseIf_eq_ok, okOr_eq_ok, Bool.not_eq_true,
    not_not] at h
  obtain ⟨_, ht, i, hi, record, hr, _, hp, h⟩ := h
  cases h
  obtain ⟨hlt, hid, -⟩ := findIdx?_eq_some_iff_getElem.1 hi
  rw [getElem?_eq_getElem hlt] at hr
  cases hr
  exact ⟨ht, i, _, getElem?_eq_getElem hlt, by simpa using hid, hp, rfl⟩

theorem checkFinalization_ok {export_ : String}
    {count : ℕ}
    (h : O.checkFinalization w export_ = .ok (snapshot, ledger, count)) :
    w.finalization = none ∧ w.pendingCompletion = none ∧ w.transition = none ∧ w.gate = none ∧
      unnamed export_ = false ∧ w.snapshot.advanceSnapshot .cleaning = .ok snapshot ∧
      EffectLedger.beginFinalization w.ledger = .ok (ledger, count) := by
  simp only [checkFinalization, bind_eq_ok, refuseIf_eq_ok, not_or, Bool.not_eq_true,
    isSome_eq_false_iff, isNone_iff_eq_none] at h
  obtain ⟨_, ⟨hf, hp⟩, _, hn, _, _, _, _, _, hg, _, ht, s, hs, ⟨l, n⟩, hl, h⟩ := h
  cases h
  exact ⟨hf, hp, ht, hg, hn, hs, hl⟩

theorem checkControl_ok (h : checkControl w = .ok ownership) : w.finalization = some ownership := by
  simp only [checkControl, bind_eq_ok, okOr_eq_ok] at h
  obtain ⟨_, _, _, _, _, _, o, ho, _, _, h⟩ := h
  cases h
  exact ho

theorem checkOutcome_ok {ownership : FinalizationOwnership}
    (h : checkOutcome w = .ok (ownership, ledger, records)) :
    w.finalization = some ownership ∧ ownership.outcomePrepared = false ∧
      w.pendingCompletion = none ∧ w.gate = none ∧ w.transition = none ∧
      w.snapshot.phase = .cleaning ∧ EffectLedger.sealRecords w.ledger = .ok (ledger, records) := by
  simp only [checkOutcome, bind_eq_ok, refuseIf_eq_ok, okOr_eq_ok, not_or, not_not,
    Bool.not_eq_true, isSome_eq_false_iff, isNone_iff_eq_none] at h
  obtain ⟨o, ho, _, ⟨_, hprep, hp⟩, _, hg, _, ht, _, hph, ⟨l, r⟩, hl, h⟩ := h
  cases h
  exact ⟨ho, hprep, hp, hg, ht, hph, hl⟩

theorem checkCompletion_ok {result terminal : EmbeddedResult Json}
    (h : O.checkCompletion w result = .ok (terminal, ledger, records)) :
    w.pendingCompletion = none ∧ w.gate = none ∧ w.transition = none ∧
      w.snapshot.phase = .cleaning ∧
      terminalResult w (OperationOutcome.bounded O.serde result O.maxValueBytes).result =
        .ok terminal ∧
      EffectLedger.sealRecords w.ledger = .ok (ledger, records) := by
  simp only [checkCompletion, bind_eq_ok, refuseIf_eq_ok, not_not, Bool.not_eq_true,
    isSome_eq_false_iff, isNone_iff_eq_none] at h
  obtain ⟨_, hp, _, hg, _, ht, _, hph, t, hterm, ⟨l, r⟩, hl, h⟩ := h
  cases h
  exact ⟨hp, hg, ht, hph, hterm, hl⟩

theorem checkTerminal_ok (h : checkTerminal w = .ok snapshot) :
    w.snapshot.phase = .cleaning ∧ w.pendingCompletion = some snapshot := by
  simpa [checkTerminal, bind_eq_ok] using h

/-! ## One move -/

theorem Protocol.completion_none (P : Protocol O w) (h : w.pendingCompletion = none) :
    w.completion = none := by
  cases hc : w.completion with
  | none => rfl
  | some c =>
    have := P.completion c hc
    rw [h] at this
    cases this

theorem Protocol.writerMove (P : Protocol O w) (hf : O.foreign w.writer call) :
    Protocol O { w with writer := O.center.perform w.writer call } := by
  obtain ⟨n, p, W⟩ := P.writer
  obtain ⟨hinv, hg⟩ := W.call call
  refine ⟨hinv, P.ordered, P.exclusive, P.gate, P.completion, ?_, ?_,
    P.counted.frame (le_refl _) rfl rfl, P.revised.frame hg rfl rfl⟩
  · intro σ c h
    exact (P.held σ c h).frame (le_refl _) hg rfl rfl rfl rfl
  · intro id x hx hk
    -- the admitted attempts of the operation are the old ones
    have hold : w.writer.charges[id]? = some x := by
      cases W.seen call with
      | none _ _ hc | journal _ _ _ hc | execute _ _ _ _ _ hc => rwa [hc] at hx
      | @submit request lockPoisoned bytes hcall _ _ hc =>
        subst hcall
        rw [hc, getElem?_append] at hx
        split at hx
        · exact hx
        · obtain ⟨_, hx⟩ := List.getElem?_eq_some_iff.1 hx
          rw [getElem_singleton] at hx
          subst hx
          simp only [foreign, decide_eq_true_eq, ne_eq] at hf
          exact absurd hk hf
    rcases P.flight id x hold hk with hdone | h
    · exact .inl ((hg.completed.map Prod.fst).subset hdone)
    · exact .inr h

theorem Protocol.move (P : Protocol O w) (m : Move O K w v) : Protocol O v := by
  cases m with
  | writer hf => exact P.writerMove hf
  | cancel | ledger | issue | authorize =>
    exact P.frame rfl rfl rfl (fun _ => rfl) P.gate rfl rfl rfl rfl rfl
  | gate hg => exact P.frame rfl rfl rfl (fun _ => rfl) hg rfl rfl rfl rfl rfl
  | capture ht hp _ hc =>
    refine P.retain ht (P.completion_none hp) hp ?_
    rintro id rfl
    cases hc with
    | start hc =>
      obtain ⟨-, i, record, hr, hid, -, rfl⟩ := startCandidate_ok hc
      refine ⟨_, List.mem_set (List.getElem?_eq_some_iff.1 hr).1 _, hid, rfl⟩
  | finalize hc =>
    obtain ⟨-, hp, ht, hg, -⟩ := checkFinalization_ok hc
    refine Protocol.retain ?_ ht (P.completion_none hp) hp nofun
    exact P.frame rfl rfl rfl (fun _ => rfl) P.gate rfl rfl rfl rfl rfl
  | close hc =>
    obtain ⟨-, -, hp, -, ht, -⟩ := checkOutcome_ok hc
    refine Protocol.retain ?_ ht (P.completion_none hp) hp nofun
    exact P.frame rfl rfl rfl (fun _ => rfl) P.gate rfl rfl rfl rfl rfl
  | complete hc =>
    obtain ⟨hp, hg, ht, -⟩ := checkCompletion_ok hc
    refine ⟨P.writer, P.ordered, fun _ => ht, fun h => ?_, fun d hd => ?_, fun σ c h => ?_, P.flight,
      P.counted.frame (le_refl _) rfl rfl, P.revised.frame (.refl _) rfl rfl⟩
    · exact absurd (hg ▸ (h : w.gate.isSome)) nofun
    · exact absurd ((P.completion_none hp).symm.trans hd) nofun
    · exact (P.held σ c h).frame (le_refl _) (.refl _) rfl rfl rfl rfl
  | retain hc hn =>
    obtain ⟨-, hp⟩ := checkTerminal_ok hc
    exact P.retain (P.exclusive (by rw [hp]; rfl)) hn hp nofun
  | progress h hp => exact P.progress h hp
  | @consume c hc hack | @publishPhase c hc hack =>
    have hfree := P.slot_free (σ := .transition) (τ := .completion) hc nofun
    refine P.release (σ := .transition) hc hack rfl rfl (fun τ => ?_) P.gate rfl rfl rfl rfl rfl
    cases τ
    · rfl
    · exact hfree
  | @publishCompletion c snapshot hc hack hph hp =>
    have hfree := P.slot_free (σ := .completion) (τ := .transition) hc nofun
    refine P.release (σ := .completion) hc hack rfl rfl (fun τ => ?_) (fun _ => rfl) rfl rfl rfl rfl
      rfl
    cases τ
    · exact hfree
    · rfl

theorem Protocol.moves (P : Protocol O w) (m : Moves O K w v) : Protocol O v := by
  induction m with
  | refl => exact P
  | tail _ m ih => exact ih.move m

end Operation

end LuaSkills.Embedded
