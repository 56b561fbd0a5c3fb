import LuaSkills.Embedded.Broker.Sections
import LuaSkills.Embedded.Identity

/-!
# Runs of the broker

Submissions and sections keep the invariant, so every interleaving of calls does. The protocol of host
requests follows: single delivery in the order of submission, a single accepted completion whose effects
are the published ones, and the budgets.
-/

namespace LuaSkills.Embedded

open AList List

variable {events : List BrokerEvent} {r : RequestRecord} {t : ℕ} {rest : List Action}

namespace HostRequestBroker
variable {B : HostRequestBroker} {w : BrokerWorld} {id : String}

/-! ## Submission -/

theorem hostId_injective : Function.Injective B.hostId := by
  intro i j h
  exact Nat.decimal_injective ((String.append_right_inj _).1 ((String.append_right_inj _).1 h))

theorem submitted_mem_iff :
    .submitted id ∈ events ↔ id ∈ issued events := by
  rw [issued, mem_filterMap]
  constructor
  · exact fun h => ⟨_, h, rfl⟩
  · rintro ⟨e, he, hsome⟩
    cases e <;> cases hsome
    exact he

theorem issued_append_submitted :
    issued (events ++ [.submitted id]) = issued events ++ [id] := by
  rw [issued, filterMap_append]
  rfl

/-- What a submission does: nothing, an identity that is lost, or a record at the end of the queue. -/
inductive Submission (B : HostRequestBroker) (s : BrokerState) :
    BrokerState × EmbeddedResult String → Prop
  | refused (e : EmbeddedError) : Submission B s (s, .error e)
  | lost (e : EmbeddedError) : Submission B s ({ s with sequence := s.sequence + 1 }, .error e)
  | queued (prepared : PreparedCapability) (remainingMs bytes : ℕ) (size_lt : s.records.size < B.maxRecords)
    (bytes_le : s.bytes + bytes ≤ B.maxBytes) :
    Submission B s ({ s with
      sequence := s.sequence + 1
      bytes := s.bytes + bytes
      ready := s.ready ++ [B.hostId (s.sequence + 1)]
      records := s.records.insert (B.hostId (s.sequence + 1))
        ⟨none, B.request prepared (s.sequence + 1) remainingMs, some prepared, none, .queued, none, true,
          bytes⟩ }, .ok (B.hostId (s.sequence + 1)))

theorem checkSubmit_eq_ok {sequence : ℕ}
    (h : B.checkSubmit s prepared remainingMs = .ok (sequence, bytes, total)) :
    s.records.size < B.maxRecords ∧ sequence = s.sequence + 1 ∧ total = s.bytes + bytes ∧
      total ≤ B.maxBytes := by
  simp only [checkSubmit, Except.bind_eq_ok, refuseIf_eq_ok, okOr_eq_ok, Option.filter_eq_some_iff,
    checkedAdd_eq_some] at h
  obtain ⟨_, -, _, hsize, n, ⟨-, rfl⟩, _, -, b, -, total, ⟨⟨-, rfl⟩, hle⟩, h⟩ := h
  cases h
  exact ⟨not_le.1 hsize, rfl, rfl, of_decide_eq_true hle⟩

theorem submit_submission (s : BrokerState) (gates : EntryGates) (prepared : PreparedCapability)
    (a : Answers) : Submission B s (B.submit s gates prepared a) := by
  unfold submit
  split
  · exact .refused _
  next sequence bytes total h =>
  obtain ⟨hsize, rfl, rfl, hle⟩ := checkSubmit_eq_ok h
  dsimp only
  split
  · exact .lost _
  · exact .queued prepared a.remainingMs bytes hsize hle

theorem mem_of_mem_submitted (he : e ∈ w.events ++ [.submitted id]) (hk : subject e = some k) :
    e ∈ w.events :=
  (mem_append.1 he).resolve_right fun he => by cases mem_singleton.1 he; cases hk

theorem BudgetInv.queued {s' : BrokerState} (H : BudgetInv B s) (hid : id ∉ s.records)
    (hrec : s'.records = s.records.insert id r) (hbytes : s'.bytes = s.bytes + r.bytes)
    (htomb : s'.tombstones = s.tombstones) (hsize : s.records.size < B.maxRecords)
    (hle : s.bytes + r.bytes ≤ B.maxBytes) : BudgetInv B s' where
  bytes := by
    rw [hbytes, hrec, sumBy_insert, erase_of_notMem hid, H.bytes, Nat.add_comm]
  bytes_le := hbytes ▸ hle
  size_le := by
    rw [hrec, size_insert_of_notMem hid]
    exact hsize
  tombstones_le := htomb ▸ H.tombstones_le

section
variable (I : Inv B w)
include I

/-- An identity that is consumed is not issued to another request. -/
theorem Inv.lost : Inv B { w with state.sequence := w.state.sequence + 1 } where
  log := { I.log with
    numbered := fun id h =>
      let ⟨k, hk, he⟩ := I.log.numbered id h
      ⟨k, Nat.le_succ_of_le hk, he⟩ }
  table := ⟨I.table.issued, I.table.consistent, I.table.ready⟩
  budget := ⟨I.budget.bytes, I.budget.bytes_le, I.budget.size_le, I.budget.tombstones_le⟩
  threads := ⟨I.threads.nodup, I.threads.owned, I.threads.tails, I.threads.carried⟩

theorem Inv.fresh : B.hostId (w.state.sequence + 1) ∉ issued w.events := by
  intro h
  obtain ⟨k, hk, he⟩ := I.log.numbered _ h
  have := hostId_injective he
  omega

theorem Inv.submitted {s' : BrokerState} (hid : id = B.hostId (w.state.sequence + 1))
    (hseq : s'.sequence = w.state.sequence + 1) (hclosing : s'.closing = w.state.closing)
    (hready : s'.ready = w.state.ready ++ [id]) (hrec : s'.records = w.state.records.insert id r)
    (hreq : r.request.requestId = id) (hp : r.phase = .queued)
    (hprep : ∃ p, r.prepared = some p ∧ p.entry.id = r.request.registrationId)
    (hbudget : BudgetInv B s') :
    Inv B { w with state := s', events := w.events ++ [.submitted id] } := by
  have hfresh : id ∉ issued w.events := hid ▸ I.fresh
  have hissued : issued (w.events ++ [.submitted id]) = issued w.events ++ [id] := issued_append_submitted
  have hlookup (k : String) (hk : k ≠ id) : s'.records.lookup k = w.state.records.lookup k := by
    rw [hrec, lookup_insert_ne hk]
  have hself : s'.records.lookup id = some r := by rw [hrec, lookup_insert]
  have hne {k : String} (hk : k ∈ issued w.events) : k ≠ id := fun h => hfresh (h ▸ hk)
  have hsub : w.events ⊆ w.events ++ [.submitted id] := subset_append_left _ _
  refine ⟨⟨I.log.legal.append (mt submitted_mem_iff.1 hfresh), ?_, ?_, ?_, ?_, ?_⟩, ⟨?_, ?_, ?_⟩, hbudget,
    ⟨I.threads.nodup, ?_, I.threads.tails, ?_⟩⟩
  · intro k hk
    rw [hissued] at hk
    change ∃ n ≤ s'.sequence, _
    rw [hseq]
    rcases mem_append.1 hk with hk | hk
    · obtain ⟨n, hn, he⟩ := I.log.numbered k hk
      exact ⟨n, Nat.le_succ_of_le hn, he⟩
    · exact ⟨_, le_rfl, (mem_singleton.1 hk).trans hid⟩
  · rw [hissued]
    exact nodup_append.2 ⟨I.log.nodup, nodup_singleton _, fun k hk k' hk' h =>
      hne hk (h.trans (mem_singleton.1 hk'))⟩
  · intro e he k hk
    rw [hissued]
    exact mem_append_left _ (I.log.known e (mem_of_mem_submitted he hk) k hk)
  · intro h
    exact hclosing ▸ I.log.closed ((mem_append.1 h).resolve_right (by simp))
  · intro k h
    exact I.log.retired k ((mem_append.1 h).resolve_right (by simp))
  · intro k x hx
    rw [hissued]
    by_cases hk : k = id
    · subst hk
      cases hself.symm.trans hx
      exact ⟨mem_append_right _ mem_cons_self, hreq⟩
    · obtain ⟨hmem, hkx⟩ := I.table.issued k x ((hlookup k hk).symm.trans hx)
      exact ⟨mem_append_left _ hmem, hkx⟩
  · intro k x hx
    by_cases hk : k = id
    · subst hk
      cases hself.symm.trans hx
      simp only [Consistent, hp]
      exact ⟨hprep, fun e he hs => hfresh (I.log.known e (mem_of_mem_submitted he hs) k hs)⟩
    · exact (I.table.consistent k x ((hlookup k hk).symm.trans hx)).mono hsub
        (fun e he hs => mem_of_mem_submitted he hs) fun h => h
  · change s'.ready = (issued (w.events ++ [.submitted id])).filter (isQueued s')
    rw [hissued, filter_append, hready, I.table.ready]
    congr 1
    · exact filter_congr fun k hk => (isQueued_congr (hlookup k (hne hk))).symm
    · have : isQueued s' id = true := by simp [isQueued, hself, hp]
      rw [filter_cons_of_pos this, filter_nil]
  · intro k hk
    obtain ⟨x, hx, hrest⟩ := I.threads.owned k hk
    exact ⟨x, (hlookup k (hne (I.table.issued k x hx).1)).trans hx, hrest⟩
  · intro x hx a ha
    refine (I.threads.carried x hx a ha).mono hsub ?_
    rintro k - ⟨req, hreq, hk⟩
    exact ⟨req, mem_of_mem_submitted hreq (congrArg some hk), hk⟩

end

theorem Inv.submit (I : Inv B w) (prepared : PreparedCapability) (a : Answers) :
    Inv B (B.perform w (.submit prepared a)) := by
  have hx := submit_submission (B := B) w.state w.gates prepared a
  unfold HostRequestBroker.perform
  dsimp only
  generalize B.submit w.state w.gates prepared a = x at hx
  cases hx with
  | refused e => exact I
  | lost e => exact I.lost
  | queued prepared remainingMs bytes hsize hle =>
    refine I.submitted rfl rfl rfl rfl rfl rfl rfl ⟨prepared, rfl, rfl⟩ ?_
    refine I.budget.queued ?_ rfl rfl rfl hsize hle
    intro hmem
    obtain ⟨r, hr⟩ := mem_iff_lookup.1 hmem
    exact I.fresh (I.table.issued _ r hr).1

/-! ## Runs -/

theorem actions_free (call : BrokerCall) : ∀ a ∈ call.actions B, a.owner? = none := by
  cases call with
  | take limit =>
    change ∀ a ∈ if limit = 0 ∨ limit > B.maxRecords then [] else [Action.maintain, .taking limit],
      Action.owner? a = none
    split <;> simp [Action.owner?]
  | _ => simp [BrokerCall.actions, Action.owner?]

theorem owners_append_free {threads : List (List Action)} {l : List Action}
    (h : ∀ a ∈ l, a.owner? = none) : owners (threads ++ [l]) = owners threads := by
  have hl : headOwner l = [] := headOwner_free h
  have : owners [l] = headOwner l := by
    unfold owners headOwner
    cases hb : l.head?.bind Action.owner? <;> simp [hb]
  rw [owners, filterMap_append]
  exact (congrArg (owners threads ++ ·) (this.trans hl)).trans (append_nil _)

/-- A new call starts with a section that holds no completion. -/
theorem mem_append_free {threads : List (List Action)} {l : List Action}
    (h : ∀ a ∈ l, a.owner? = none) :
    ∀ x ∈ threads ++ [l], x ∈ threads ∨ ∀ a ∈ x, a.owner? = none := by
  intro x hx
  rcases mem_append.1 hx with hx | hx
  · exact .inl hx
  · rw [mem_singleton.1 hx]
    exact .inr h

theorem turn_of_head {action : Action} (a : Answers)
    (ht : w.threads[t]? = some (action :: rest)) :
    B.turn w t a = after w t (B.act w.state w.gates a action).state
      ((B.act w.state w.gates a action).follow rest) (B.act w.state w.gates a action).events := by
  unfold HostRequestBroker.turn
  rw [ht]
  rfl

theorem Inv.turn (I : Inv B w) (t : ℕ) (a : Answers) : Inv B (B.turn w t a) := by
  unfold HostRequestBroker.turn
  split
  · next action rest ht => exact I.kept_act ht
  · exact I

theorem Inv.perform (I : Inv B w) (step : BrokerStep) : Inv B (B.perform w step) := by
  cases step with
  | submit prepared a => exact I.submit prepared a
  | call call =>
    refine Quiet.inv I ⟨⟨_, rfl⟩, (append_nil _).symm, nofun, I.log.closed, I.log.retired,
      .of_eq (owners_append_free (actions_free call)), mem_append_free (actions_free call)⟩
  | turn t a => exact I.turn t a
  | unregister registrationId =>
    have hfree : ∀ a ∈ [Action.scan registrationId], a.owner? = none := by simp [Action.owner?]
    refine Quiet.inv I ⟨⟨_, rfl⟩, rfl, ?_, ?_, ?_, .of_eq (owners_append_free hfree),
      mem_append_free hfree⟩
    · exact fun e he => .inr ⟨_, mem_singleton.1 he⟩
    · exact fun h => I.log.closed ((mem_append.1 h).resolve_right (by simp))
    · intro k hk
      rcases mem_append.1 hk with hk | hk
      · exact mem_cons_of_mem _ (I.log.retired k hk)
      · cases mem_singleton.1 hk
        exact mem_cons_self
  | finalizationOnly registrationId =>
    exact Quiet.inv I ⟨⟨_, rfl⟩, (append_nil _).symm, nofun, I.log.closed, I.log.retired, .refl _,
      fun _ h => .inl h⟩

theorem Inv.new : Inv B ⟨new, ⟨[], []⟩, [], []⟩ where
  log := ⟨.nil, forall_mem_nil _, nodup_nil, forall_mem_nil _,
    fun h => absurd h not_mem_nil, fun _ h => absurd h not_mem_nil⟩
  table := ⟨fun _ _ => nofun, fun _ _ => nofun, rfl⟩
  budget := ⟨rfl, Nat.zero_le _, Nat.zero_le _, Nat.zero_le _⟩
  threads := ⟨nodup_nil, forall_mem_nil _, forall_mem_nil _, forall_mem_nil _⟩

theorem Inv.run (steps : List BrokerStep) : Inv B (B.run steps) := by
  unfold HostRequestBroker.run
  induction steps using reverseRecOn with
  | nil => exact Inv.new
  | append_singleton steps step ih =>
    rw [foldl_append]
    exact ih.perform step

/-! ## The protocol -/

variable (id) in
/-- A request that is cancelled before it is handed over never is. -/
theorem not_delivered_of_cancelled {first : List BrokerEvent} (h : LegalLog Legal (first ++ last))
    (hc : .cancelled id ∈ first) (hd : ¬ Delivered first id) : ¬ Delivered (first ++ last) id := by
  rintro ⟨request, hreq, rfl⟩
  rcases h.mem_or_legal hreq with hmem | ⟨before, hsub, hlegal⟩
  · exact hd ⟨request, hmem, rfl⟩
  · exact hlegal.2.2.1 (hsub hc)

theorem accepted_unique (h : LegalLog Legal events) (hx : .accepted id x ∈ events)
    (hy : .accepted id y ∈ events) : x = y := by
  rcases h.eq_or_legal hx hy with heq | ⟨before, hmem, hlegal⟩ | ⟨before, hmem, hlegal⟩
  · cases heq
    rfl
  · exact absurd hmem (hlegal.2 x)
  · exact absurd hmem (hlegal.2 y)

/-- The effects of a published outcome are those of the accepted completion, and `notStarted` when the
request was never handed over. -/
theorem published_effects (h : LegalLog Legal events) (hp : .published id outcome ∈ events) :
    .accepted id outcome.effects ∈ events ∧ Delivered events id ∨
      outcome.effects = .notStarted ∧ .cancelled id ∈ events ∧ ¬ Delivered events id := by
  obtain ⟨before, after, rfl, -, hev | ⟨hnone, hc, hd⟩⟩ := h.of_mem hp
  · have hacc : .accepted id outcome.effects ∈ before ++ .published id outcome :: after :=
      mem_append_left _ hev
    obtain ⟨first, last, heq, ⟨request, hreq, hid⟩, -⟩ := h.of_mem hacc
    refine .inl ⟨hacc, request, ?_, hid⟩
    rw [heq]
    exact mem_append_left _ hreq
  · exact .inr ⟨hnone, mem_append_left _ hc, not_delivered_of_cancelled _ h hc hd⟩

/-- The protocol of host requests, in a state of a run. -/
structure Protocol (B : HostRequestBroker) (w : BrokerWorld) : Prop where
  /-- The queue is the queued requests in the order of their submission. -/
  ready : w.state.ready = (issued w.events).filter (isQueued w.state)
  ready_nodup : w.state.ready.Nodup
  ready_mem : ∀ id, id ∈ w.state.ready ↔
    ∃ r, w.state.records.lookup id = some r ∧ r.phase = .queued
  /-- A request is delivered at most once, and not after a cancellation, its registration's retirement
  or the close. -/
  delivered : ∀ before request after, w.events = before ++ .delivered request :: after →
    .submitted request.requestId ∈ before ∧ ¬ Delivered before request.requestId ∧
      .cancelled request.requestId ∉ before ∧ .retired request.registrationId ∉ before ∧
      .closed ∉ before
  /-- At most one completion is accepted. -/
  accepted : ∀ before id effects after, w.events = before ++ .accepted id effects :: after →
    Delivered before id ∧ ∀ effects, .accepted id effects ∉ before
  published : ∀ before id outcome after, w.events = before ++ .published id outcome :: after →
    ∀ outcome, .published id outcome ∉ before
  /-- The published effects are those of the accepted completion. -/
  effects : ∀ id outcome, .published id outcome ∈ w.events →
    (∀ effects, .accepted id effects ∈ w.events → outcome.effects = effects) ∧
    (Delivered w.events id → .accepted id outcome.effects ∈ w.events)
  /-- A request cancelled before dispatch publishes `notStarted`. -/
  notStarted : ∀ before id after, w.events = before ++ .cancelled id :: after →
    ¬ Delivered before id → ¬ Delivered w.events id ∧
      ∀ outcome, .published id outcome ∈ w.events → outcome.effects = .notStarted
  cancels : ∀ t id error tolerant rest r a,
    w.threads[t]? = some (.cancel id error tolerant :: rest) →
    w.state.records.lookup id = some r → r.phase = .queued →
    (B.turn w t a).threads[t]? = some (.publish id HostRequestBroker.notStarted :: rest)
  /-- A call that holds an outcome publishes it with its effects. -/
  publishes : ∀ t id outcome rest a, w.threads[t]? = some (.publish id outcome :: rest) →
    ∃ o, o.effects = outcome.effects ∧ (B.turn w t a).events = w.events ++ [.published id o]
  bytes : w.state.bytes = w.state.records.sumBy fun _ r => r.bytes
  bytes_le : w.state.bytes ≤ B.maxBytes
  size_le : w.state.records.size ≤ B.maxRecords
  tombstones_le : w.state.tombstones.length ≤ B.maxRecords
  /-- Identities are never reused. -/
  issued_nodup : (issued w.events).Nodup
  issued_records : ∀ id r, w.state.records.lookup id = some r → id ∈ issued w.events

section
variable (I : Inv B w)
include I

theorem Inv.ready_mem : id ∈ w.state.ready ↔
    ∃ r, w.state.records.lookup id = some r ∧ r.phase = .queued := by
  rw [I.table.ready, mem_filter]
  constructor
  · rintro ⟨-, hq⟩
    obtain ⟨r, hr, hp⟩ := (Option.any_eq_true _ _).1 hq
    exact ⟨r, hr, of_decide_eq_true hp⟩
  · rintro ⟨r, hr, hp⟩
    refine ⟨(I.table.issued id r hr).1, (Option.any_eq_true _ _).2 ⟨r, hr, ?_⟩⟩
    exact decide_eq_true hp

theorem Inv.cancels {tolerant : Bool} (a : Answers)
    (ht : w.threads[t]? = some (.cancel id error tolerant :: rest))
    (hr : w.state.records.lookup id = some r) (hp : r.phase = .queued) :
    (B.turn w t a).threads[t]? = some (.publish id notStarted :: rest) := by
  obtain ⟨⟨prepared, hprep, -⟩, -⟩ : _ ∧ _ := by
    simpa only [Consistent, hp] using I.table.consistent id r hr
  rw [turn_of_head a ht]
  refine (List.getElem?_set_self (List.getElem?_eq_some_iff.1 ht).1).trans ?_
  simp [act, cancel, hr, hp, hprep, Section.follow]

theorem Inv.publishes {outcome : CapabilityOutcome} (a : Answers)
    (ht : w.threads[t]? = some (.publish id outcome :: rest)) :
    ∃ o, o.effects = outcome.effects ∧ (B.turn w t a).events = w.events ++ [.published id o] := by
  obtain ⟨-, r, hr, -⟩ := I.owner_record ht rfl
  obtain ⟨o, ho, hpub⟩ := publish_of_lookup (B := B) hr outcome
  refine ⟨o, ho, ?_⟩
  rw [turn_of_head a ht]
  simp [after, act, hpub]

theorem Inv.protocol : Protocol B w where
  ready := I.table.ready
  ready_nodup := by
    rw [I.table.ready]
    exact I.log.nodup.filter _
  ready_mem _ := I.ready_mem
  delivered before request after h := I.log.legal before _ after h
  accepted before id effects after h := I.log.legal before _ after h
  published before id outcome after h := (I.log.legal before _ after h).1
  effects id outcome hp := by
    rcases published_effects I.log.legal hp with ⟨hacc, -⟩ | ⟨-, -, hd⟩
    · exact ⟨fun effects h => accepted_unique I.log.legal hacc h, fun _ => hacc⟩
    · refine ⟨fun effects h => absurd ?_ hd, fun h => absurd h hd⟩
      obtain ⟨before, after, heq, ⟨request, hreq, hid⟩, -⟩ := I.log.legal.of_mem h
      exact ⟨request, heq ▸ mem_append_left _ hreq, hid⟩
  notStarted before id after heq hd := by
    have hlegal := I.log.legal
    rw [heq, ← singleton_append, ← append_assoc] at hlegal ⊢
    have hnever := not_delivered_of_cancelled id hlegal (by simp) (by
      rintro ⟨request, hreq, hid⟩
      exact hd ⟨request, (mem_append.1 hreq).resolve_right (by simp), hid⟩)
    refine ⟨hnever, fun outcome hp => ?_⟩
    rcases published_effects hlegal hp with ⟨-, h⟩ | ⟨h, -⟩
    · exact absurd h hnever
    · exact h
  cancels t id error tolerant rest r a ht hr hp := I.cancels a ht hr hp
  publishes t id outcome rest a ht := I.publishes a ht
  bytes := I.budget.bytes
  bytes_le := I.budget.bytes_le
  size_le := I.budget.size_le
  tombstones_le := I.budget.tombstones_le
  issued_nodup := I.log.nodup
  issued_records id r hr := (I.table.issued id r hr).1

end

/-- Every interleaving of calls keeps the protocol of host requests. -/
theorem run_protocol (steps : List BrokerStep) : Protocol B (B.run steps) := (Inv.run steps).protocol

end HostRequestBroker

end LuaSkills.Embedded
