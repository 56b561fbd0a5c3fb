import LuaSkills.Embedded.Broker.Invariant

/-!
# Sections of the broker

Each section keeps the invariant. A section concerns no request at all (`Quiet`), or it replaces the
record of one request (`Rewrite`), possibly to remove it at once.
-/

namespace LuaSkills.Embedded

open AList List

variable {prepared : PreparedCapability} {outcome : CapabilityOutcome}

namespace HostRequestBroker
variable {B : HostRequestBroker} {w : BrokerWorld} {t : ℕ} {action : Action} {rest l' : List Action}
  {id : String} {s s' : BrokerState} {evs : List BrokerEvent} {r r' : RequestRecord}

/-! ## Budgets -/

theorem BudgetInv.insert (H : BudgetInv B s) (hr : s.records.lookup id = some r)
    (hb : r'.bytes = r.bytes) (hrec : s'.records = s.records.insert id r')
    (hbytes : s'.bytes = s.bytes) (htomb : s'.tombstones = s.tombstones) : BudgetInv B s' where
  bytes := by
    rw [hbytes, H.bytes, hrec, sumBy_insert, sumBy_of_lookup hr, hb]
  bytes_le := hbytes ▸ H.bytes_le
  size_le := by
    rw [hrec, size_insert_of_lookup hr]
    exact H.size_le
  tombstones_le := htomb ▸ H.tombstones_le

theorem BudgetInv.remove (H : BudgetInv B s) (id : String) : BudgetInv B (B.remove s id) := by
  unfold HostRequestBroker.remove
  split
  · exact H
  · next r hr =>
    have hsum := H.bytes
    rw [sumBy_of_lookup hr] at hsum
    have hsize := H.size_le
    rw [size_of_lookup hr] at hsize
    refine ⟨?_, ?_, ?_, ?_⟩
    · change s.bytes - r.bytes = (s.records.erase id).sumBy fun _ r => r.bytes
      omega
    · exact (Nat.sub_le _ _).trans H.bytes_le
    · change (s.records.erase id).size ≤ _
      omega
    · change (drop _ (s.tombstones ++ [id])).length ≤ _
      rw [length_drop]
      omega

/-! ## Sections -/

section
variable (I : Inv B w) (ht : w.threads[t]? = some (action :: rest))
include I ht

theorem Inv.rest_free : ∀ a ∈ rest, a.owner? = none :=
  I.threads.tails _ (mem_of_getElem? ht)

/-- The completion that a section owns is in its record's place. -/
theorem Inv.owner_record (ho : action.owner? = some id) :
    id ∉ owners (w.threads.eraseIdx t) ∧ ∃ r, w.state.records.lookup id = some r ∧
      r.phase = .completing ∧ r.prepared = none := by
  have hhead : id ∈ headOwner (action :: rest) := by
    simp [headOwner, ho]
  have hnodup := (owners_perm ht).nodup_iff.1 I.threads.nodup
  refine ⟨fun h => ?_, I.threads.owned id ((owners_perm ht).mem_iff.2 (mem_append_left _ hhead))⟩
  exact (nodup_append.1 hnodup).2.2 id hhead id h rfl

end

/-- A record that is not in the hands of a call. -/
theorem Inv.free_record (I : Inv B w) (hr : w.state.records.lookup id = some r)
    (h : r.phase ≠ .completing ∨ r.prepared.isSome) : id ∉ owners w.threads := by
  intro hown
  obtain ⟨r', hr', hp, hprep⟩ := I.threads.owned id hown
  cases hr.symm.trans hr'
  rcases h with h | h
  · exact h hp
  · rw [hprep] at h
    cases h

theorem owners_eraseIdx_subset (t : ℕ) (threads : List (List Action)) :
    owners (threads.eraseIdx t) ⊆ owners threads :=
  (eraseIdx_sublist threads t).filterMap _ |>.subset

theorem isQueued_insert (hr : s.records.lookup id = some r)
    (hq : r'.phase = .queued ↔ r.phase = .queued) (hrec : s'.records = s.records.insert id r') :
    isQueued s' id = isQueued s id := by
  rw [isQueued, isQueued, hrec, lookup_insert, hr]
  simp [hq]

theorem isQueued_insert_ne (hq : r'.phase ≠ .queued) (hrec : s'.records = s.records.insert id r') :
    isQueued s' id = false := by
  rw [isQueued, hrec, lookup_insert]
  simpa using hq

/-- A section that replaces the record of one request, with what its call goes on with. -/
structure Rewrite (B : HostRequestBroker) (w : BrokerWorld) (t : ℕ) (action : Action) (id : String)
    (r r' : RequestRecord) (l' : List Action) (evs : List BrokerEvent) : Prop where
  lookup : w.state.records.lookup id = some r
  request : r'.request = r.request
  bytes : r'.bytes = r.bytes
  free : id ∈ owners (w.threads.eraseIdx t) → (∀ a ∈ l', a.owner? = none) ∧
    (r'.phase = .completing ∧ r'.prepared = none) ∧ ∀ e ∈ evs, e = .cancelled id
  before : ∀ k ∈ action.owner?, k = id
  about : ∀ e ∈ evs, subject e = some id
  legal : LegalLog Legal (w.events ++ evs)
  tails : ∀ a ∈ l'.tail, a.owner? = none
  owner : ∀ a ∈ l'.head?, Carried (w.events ++ evs) a ∧ ∀ k ∈ a.owner?, k = id ∧
    r'.phase = .completing ∧ r'.prepared = none
  self : Consistent (w.events ++ evs) (id ∈ headOwner l' ++ owners (w.threads.eraseIdx t)) id r'

section
variable (I : Inv B w) (R : Rewrite B w t action id r r' l' evs)
include I R

theorem Rewrite.touch (hrec : s'.records = w.state.records.insert id r')
    (hseq : s'.sequence = w.state.sequence) (hclosing : s'.closing = w.state.closing)
    (hbytes : s'.bytes = w.state.bytes) (htomb : s'.tombstones = w.state.tombstones)
    (hready : s'.ready = w.state.ready ∧ (r'.phase = .queued ↔ r.phase = .queued) ∨
      s'.ready = w.state.ready.filter (· ≠ id) ∧ r'.phase ≠ .queued) :
    Touch B w t action id s' l' evs := { R with
  known := (I.table.issued id r R.lookup).1
  records k hk := by rw [hrec, lookup_insert_ne hk]
  sequence := hseq
  closing := hclosing
  free h := by
    obtain ⟨hl, hr, he⟩ := R.free h
    exact ⟨hl, ⟨r', by rw [hrec, lookup_insert], hr⟩, he⟩
  owner a ha := ⟨(R.owner a ha).1, fun k hk =>
    ⟨((R.owner a ha).2 k hk).1, r', by rw [hrec, lookup_insert], ((R.owner a ha).2 k hk).2⟩⟩
  self x hx := by
    rw [hrec, lookup_insert] at hx
    cases hx
    exact ⟨R.request ▸ (I.table.issued id r R.lookup).2, R.self⟩
  ready := hready.imp (fun h => ⟨h.1, isQueued_insert R.lookup h.2 hrec⟩)
    fun h => ⟨h.1, isQueued_insert_ne h.2 hrec⟩
  budget := I.budget.insert R.lookup R.bytes hrec hbytes htomb }

theorem Rewrite.inv (ht : w.threads[t]? = some (action :: rest))
    (hq : r'.phase = .queued ↔ r.phase = .queued) :
    Inv B (after w t { w.state with records := w.state.records.insert id r' } l' evs) := by
  refine Touch.inv id I ht (R.touch I ?_ ?_ ?_ ?_ ?_ (.inl ⟨?_, hq⟩)) <;> rfl

theorem Rewrite.inv_ready (ht : w.threads[t]? = some (action :: rest)) (hq : r'.phase ≠ .queued)
    (hready : ready = w.state.ready.filter (· ≠ id)) :
    Inv B (after w t { w.state with records := w.state.records.insert id r', ready := ready } l' evs) := by
  refine Touch.inv id I ht (R.touch I ?_ ?_ ?_ ?_ ?_ (.inr ⟨hready, hq⟩)) <;> rfl

end

theorem remove_lookup (s : BrokerState) (id k : String) :
    (B.remove s id).records.lookup k = if k = id then none else s.records.lookup k := by
  unfold HostRequestBroker.remove
  split
  · next h =>
    split
    · next hk => rw [hk, h]
    · rfl
  · exact lookup_erase_eq

theorem remove_eq (s : BrokerState) (id : String) : (B.remove s id).sequence = s.sequence ∧
    (B.remove s id).closing = s.closing ∧ ((B.remove s id).ready = s.ready ∧ B.remove s id = s ∨
      (B.remove s id).ready = s.ready.filter (· ≠ id)) := by
  unfold HostRequestBroker.remove
  split
  · exact ⟨rfl, rfl, .inl ⟨rfl, rfl⟩⟩
  · exact ⟨rfl, rfl, .inr rfl⟩

/-- The record that a section is about can be removed when its call holds no completion. -/
theorem Touch.remove (T : Touch B w t action id s' l' evs) (hl : ∀ a ∈ l', a.owner? = none)
    (hfree : id ∉ owners (w.threads.eraseIdx t)) :
    Touch B w t action id (B.remove s' id) l' evs := { T with
  records k hk := by rw [remove_lookup, if_neg hk, T.records k hk]
  sequence := (remove_eq s' id).1.trans T.sequence
  closing := (remove_eq s' id).2.1.trans T.closing
  free h := absurd h hfree
  owner a ha := by
    refine ⟨(T.owner a ha).1, fun k hk => ?_⟩
    rw [hl a (mem_of_mem_head? ha)] at hk
    cases hk
  self x hx := by
    rw [remove_lookup, if_pos rfl] at hx
    cases hx
  ready := by
    rcases (remove_eq s' id).2.2 with ⟨-, heq⟩ | hready
    · rw [heq]
      exact T.ready
    · refine .inr ⟨?_, by rw [isQueued, remove_lookup, if_pos rfl]; rfl⟩
      rcases T.ready with ⟨h, -⟩ | ⟨h, -⟩
      · rw [hready, h]
      · rw [hready, h, filter_filter]
        simp
  budget := T.budget.remove id }

theorem Rewrite.inv_remove (I : Inv B w) (R : Rewrite B w t action id r r' l' evs)
    (ht : w.threads[t]? = some (action :: rest)) (hq : r'.phase = .queued ↔ r.phase = .queued)
    (hl : ∀ a ∈ l', a.owner? = none) (hfree : id ∉ owners (w.threads.eraseIdx t)) :
    Inv B (after w t (B.remove { w.state with records := w.state.records.insert id r' } id) l' evs) := by
  refine Touch.inv id I ht (Touch.remove (R.touch I ?_ ?_ ?_ ?_ ?_ (.inl ⟨?_, hq⟩)) hl hfree) <;> rfl

/-! ## Steps that concern no request -/

theorem headOwner_free {l : List Action} (h : ∀ a ∈ l, a.owner? = none) : headOwner l = [] := by
  cases l with
  | nil => rfl
  | cons a l => rw [headOwner, head?_cons, Option.bind_some, h a mem_cons_self]; rfl

theorem Carried.of_free (h : action.owner? = none) : Carried events action := by
  cases action with
  | settle | retain | publish => cases h
  | _ => trivial

/-- A step that changes no record, no place in the queue and no completion. -/
structure Quiet (w w' : BrokerWorld) (evs : List BrokerEvent) : Prop where
  state : ∃ closing, w'.state = { w.state with closing := closing }
  events : w'.events = w.events ++ evs
  about : ∀ e ∈ evs, e = .closed ∨ ∃ registrationId, e = .retired registrationId
  closed : .closed ∈ w'.events → w'.state.closing
  retired : ∀ registrationId, .retired registrationId ∈ w'.events →
    registrationId ∈ w'.gates.closed
  owners : (owners w'.threads).Perm (owners w.threads)
  threads : ∀ x ∈ w'.threads, x ∈ w.threads ∨ ∀ a ∈ x, a.owner? = none

section
variable {w' : BrokerWorld} (I : Inv B w) (Q : Quiet w w' evs)
include Q

theorem Quiet.new : ∀ e ∈ w'.events, ∀ k, subject e = some k → e ∈ w.events := by
  intro e he k hk
  rw [Q.events] at he
  rcases mem_append.1 he with he | he
  · exact he
  · rcases Q.about e he with rfl | ⟨_, rfl⟩ <;> cases hk

theorem Quiet.issued_eq : issued w'.events = issued w.events := by
  rw [Q.events, issued, filterMap_append]
  refine (congrArg (issued w.events ++ ·) (filterMap_eq_nil_iff.2 fun e he => ?_)).trans
    (append_nil _)
  rcases Q.about e he with rfl | ⟨_, rfl⟩ <;> rfl

theorem Quiet.subset : w.events ⊆ w'.events := by
  rw [Q.events]
  exact subset_append_left _ _

theorem Quiet.legal (h : LegalLog Legal w.events) : LegalLog Legal w'.events := by
  rw [Q.events]
  have habout := Q.about
  clear Q
  induction evs using reverseRecOn with
  | nil => rwa [append_nil]
  | append_singleton evs e ih =>
    rw [← append_assoc]
    refine (ih fun e he => habout e (mem_append_left _ he)).append ?_
    rcases habout e (mem_append_right _ mem_cons_self) with rfl | ⟨_, rfl⟩ <;> trivial

include I

theorem Quiet.inv : Inv B w' := by
  obtain ⟨closing, hstate⟩ := Q.state
  have hrec : w'.state.records = w.state.records := by rw [hstate]
  refine ⟨⟨Q.legal I.log.legal, ?_, ?_, ?_, Q.closed, Q.retired⟩, ⟨?_, ?_, ?_⟩, ?_, ⟨?_, ?_, ?_, ?_⟩⟩
  · rw [Q.issued_eq, hstate]
    exact I.log.numbered
  · rw [Q.issued_eq]
    exact I.log.nodup
  · intro e he k hk
    rw [Q.issued_eq]
    exact I.log.known e (Q.new e he k hk) k hk
  · rw [Q.issued_eq, hrec]
    exact I.table.issued
  · intro k r hr
    rw [hrec] at hr
    exact (I.table.consistent k r hr).mono Q.subset (fun e he => Q.new e he k) Q.owners.mem_iff.2
  · have hq : isQueued w'.state = isQueued w.state := funext fun _ => by rw [isQueued, hrec, isQueued]
    rw [Q.issued_eq, hq, hstate]
    exact I.table.ready
  · rw [hstate]
    exact ⟨I.budget.bytes, I.budget.bytes_le, I.budget.size_le, I.budget.tombstones_le⟩
  · exact Q.owners.nodup_iff.2 I.threads.nodup
  · rw [hrec]
    exact fun k hk => I.threads.owned k (Q.owners.mem_iff.1 hk)
  · intro x hx a ha
    rcases Q.threads x hx with hx | hx
    · exact I.threads.tails x hx a ha
    · exact hx a (mem_of_mem_tail ha)
  · intro x hx a ha
    rcases Q.threads x hx with hx | hx
    · refine (I.threads.carried x hx a ha).mono Q.subset ?_
      rintro k - ⟨req, hreq, hid⟩
      exact ⟨req, Q.new _ hreq k (congrArg some hid), hid⟩
    · exact .of_free (hx a (mem_of_mem_head? ha))

end

theorem owners_set_free (ht : w.threads[t]? = some (action :: rest)) (ho : action.owner? = none)
    (hl : ∀ a ∈ l', a.owner? = none) : (owners (w.threads.set t l')).Perm (owners w.threads) := by
  refine (owners_set_perm ht).trans ?_
  rw [headOwner_free hl]
  refine ((owners_perm ht).trans (.of_eq ?_)).symm
  rw [headOwner, head?_cons, Option.bind_some, ho]
  rfl

/-- A section that only decides what its call does next. -/
theorem Inv.idle (I : Inv B w) (ht : w.threads[t]? = some (action :: rest))
    (ho : action.owner? = none) (hl : ∀ a ∈ l', a.owner? = none) :
    Inv B (after w t w.state l' []) := by
  refine Quiet.inv I ⟨⟨w.state.closing, rfl⟩, rfl, nofun, ?_, ?_, owners_set_free ht ho hl, ?_⟩
  · simpa [after] using I.log.closed
  · simpa [after] using I.log.retired
  · intro x hx
    rcases (mem_set_threads ht).1 hx with rfl | hx
    · exact .inr hl
    · exact .inl (mem_of_mem_eraseIdx hx)

/-! ## Sections that concern one request -/

end HostRequestBroker

/-- The sections that remain of a call. -/
def Section.follow (x : Section) (rest : List Action) : List Action :=
  match x.next with
  | some next => next ++ rest
  | none => []

namespace HostRequestBroker
variable {B : HostRequestBroker} {w : BrokerWorld} {t : ℕ} {action : Action} {rest : List Action}
  {id : String} {r : RequestRecord} {a : Answers}

/-- The section keeps the invariant. -/
def Kept (B : HostRequestBroker) (w : BrokerWorld) (t : ℕ) (rest : List Action) (x : Section) : Prop :=
  Inv B (after w t x.state (x.follow rest) x.events)

theorem authorized_effects (a : Answers) (outcome : CapabilityOutcome) :
    (authorized a outcome).effects = outcome.effects := by
  unfold authorized
  split <;> rfl

theorem validateOutcome_effects (entry : CapabilityEntry) (outcome : CapabilityOutcome) :
    (B.validateOutcome entry outcome).effects = outcome.effects := rfl

/-- A cancellation replaces the result that is published, never its effects. -/
theorem publish_of_lookup {s : BrokerState} (hr : s.records.lookup id = some r)
    (outcome : CapabilityOutcome) : ∃ o, o.effects = outcome.effects ∧
      B.publish s id outcome = ((fun s => if r.waiterAlive then s else B.remove s id)
        { s with records := s.records.insert id { r with outcome := some o, phase := .completed } },
        some o) := by
  unfold publish
  rw [hr]
  refine ⟨_, ?_, rfl⟩
  split <;> rfl

/-- `r'` has another cancellation or waiter than `r`. -/
structure Noted (r r' : RequestRecord) : Prop where
  request : r'.request = r.request
  bytes : r'.bytes = r.bytes
  phase : r'.phase = r.phase
  prepared : r'.prepared = r.prepared
  pendingOutcome : r'.pendingOutcome = r.pendingOutcome
  outcome : r'.outcome = r.outcome

/-- A cancellation that is noted changes nothing in the protocol of a request that left the queue. -/
theorem Consistent.noted {evs : List BrokerEvent} (h : Consistent events owned id r) (hr : Noted r r')
    (hevs : ∀ e ∈ evs, e = .cancelled id ∧ r.phase ≠ .queued) (ho : owned → owned') :
    Consistent (events ++ evs) owned' id r' := by
  have hnew : ∀ e ∈ events ++ evs, e ≠ .cancelled id → e ∈ events := fun e he hne =>
    (mem_append.1 he).resolve_right fun he => hne (hevs e he).1
  have hsub : events ⊆ events ++ evs := subset_append_left _ _
  unfold Consistent at h ⊢
  rw [hr.request, hr.phase, hr.prepared, hr.pendingOutcome, hr.outcome]
  split
  · next hp =>
    simp only [hp] at h
    refine ⟨h.1, fun e he => ?_⟩
    rcases mem_append.1 he with he | he
    · exact h.2 e he
    · exact absurd hp (hevs e he).2
  · next hp =>
    simp only [hp] at h
    obtain ⟨hprep, ⟨req, hreq, hid⟩, hacc, hpub⟩ := h
    exact ⟨hprep, ⟨req, hsub hreq, hid⟩, fun x hx => hacc x (hnew _ hx nofun),
      fun o ho => hpub o (hnew _ ho nofun)⟩
  · next hp =>
    simp only [hp] at h
    refine ⟨fun o ho => h.1 o (hnew _ ho nofun), h.2.imp ho ?_⟩
    rintro ⟨hprep, o, hmem, hacc⟩
    exact ⟨hprep, o, hmem, hsub hacc⟩
  · next hp =>
    simp only [hp] at h
    obtain ⟨o, hmem, hpub⟩ := h
    exact ⟨o, hmem, hsub hpub⟩

/-- A round of delivery leaves everything in place, or hands over the head of the queue. -/
inductive Round (s : BrokerState) (gates : EntryGates) (remainingMs : ℕ) :
    BrokerState × Delivery → Prop
  | stays (d : Delivery) (hd : ∀ request, d ≠ .delivered request) : Round s gates remainingMs (s, d)
  | delivers (id : String) (rest : List String) (r : RequestRecord) (prepared : PreparedCapability)
    (closing : ¬ s.closing) (ready : s.ready = id :: rest) (lookup : s.records.lookup id = some r)
    (phase : r.phase = .queued) (prepared_eq : r.prepared = some prepared)
    (gate : prepared.entry.id ∉ gates.closed) :
    Round s gates remainingMs ({ s with
      ready := rest, records := s.records.insert id { r with phase := .dispatched } },
      .delivered { r.request with remainingMs := remainingMs })

theorem Delivery.ofError_ne (id : String) (e : EmbeddedError) (request : HostRequest) :
    Delivery.ofError id e ≠ .delivered request := by
  unfold Delivery.ofError
  split <;> nofun

theorem dispatch_eq_ok (h : dispatch gates prepared a = .ok b) : prepared.entry.id ∉ gates.closed := by
  simp only [dispatch, withDispatchGate, Except.bind_eq_ok, refuseIf_eq_ok] at h
  obtain ⟨_, -, _, hgate, -⟩ := h
  exact fun h => hgate (.inl h)

theorem takeNext_round (s : BrokerState) (gates : EntryGates) (a : Answers) :
    Round s gates a.remainingMs (takeNext s gates a) := by
  unfold takeNext
  split
  · exact .stays _ nofun
  next hclosing =>
  split
  · exact .stays _ nofun
  next id rest hready =>
  split
  · exact .stays _ nofun
  next r hr =>
  split
  · next prepared hp hprep =>
    split
    · exact .stays _ (Delivery.ofError_ne _ _)
    split
    · exact .stays _ nofun
    split
    · exact .stays _ (Delivery.ofError_ne _ _)
    · exact .stays _ nofun
    · next hd => exact .delivers id rest r prepared hclosing hready hr hp hprep (dispatch_eq_ok hd)
  · exact .stays _ nofun

section
variable (I : Inv B w)
include I

theorem Inv.kept_idle (ht : w.threads[t]? = some (action :: rest)) (ho : action.owner? = none)
    {next : Option (List Action)} (hn : ∀ l ∈ next, ∀ a ∈ l, a.owner? = none) :
    Kept B w t rest ⟨w.state, next, []⟩ := by
  refine I.idle ht ho ?_
  cases next with
  | none => exact fun _ h => by cases h
  | some l =>
    intro a ha
    rcases mem_append.1 ha with ha | ha
    · exact hn l rfl a ha
    · exact I.rest_free ht a ha

theorem Inv.kept_drive (ht : w.threads[t]? = some (.drive id :: rest)) :
    Kept B w t rest (driveCompletion w.state id) := by
  have hidle (next) (hn : next = none ∨ next = some []) : Kept B w t rest ⟨w.state, next, []⟩ :=
    I.kept_idle ht rfl (by rcases hn with rfl | rfl <;> simp)
  unfold driveCompletion
  split
  · exact hidle _ (.inr rfl)
  next r hr =>
  split
  · next hp hpend =>
    split
    · exact hidle _ (.inl rfl)
    next prepared hprep =>
    have hfree : id ∉ owners w.threads := I.free_record hr (.inr (by rw [hprep]; rfl))
    obtain ⟨hnone, howned | ⟨-, o, ho, hacc⟩⟩ : _ ∧ _ := by
      simpa only [Consistent, hp] using I.table.consistent id r hr
    · exact absurd howned hfree
    cases hpend.symm.trans ho
    refine Rewrite.inv (r := r) I ?_ ht Iff.rfl
    exact {
      lookup := hr
      request := rfl
      bytes := rfl
      free := fun h => absurd (owners_eraseIdx_subset _ _ h) hfree
      before := nofun
      about := nofun
      legal := by simpa using I.log.legal
      tails := I.rest_free ht
      owner := by
        rintro _ ⟨⟩
        exact ⟨mem_append_left _ hacc, by rintro _ ⟨⟩; exact ⟨rfl, hp, rfl⟩⟩
      self := by
        simp only [Consistent, hp, append_nil]
        exact ⟨hnone, .inl (mem_append_left _ mem_cons_self)⟩ }
  · exact hidle _ (.inr rfl)

/-- The completion goes back into its record. -/
theorem Inv.kept_restore (ht : w.threads[t]? = some (action :: rest)) (ho : action.owner? = some id)
    (hacc : .accepted id outcome.effects ∈ w.events) {next : Option (List Action)}
    (hn : next = none ∨ next = some []) :
    Kept B w t rest (restore w.state id prepared outcome next) := by
  obtain ⟨hfree, r, hr, hp, -⟩ := I.owner_record ht ho
  obtain ⟨hnone, -⟩ : _ ∧ _ := by
    simpa only [Consistent, hp] using I.table.consistent id r hr
  have hfollow : ∀ a ∈ Section.follow ⟨w.state, next, []⟩ rest, a.owner? = none := by
    rcases hn with rfl | rfl
    · exact fun _ h => by cases h
    · exact I.rest_free ht
  unfold restore
  rw [hr]
  refine Rewrite.inv (r := r) I ?_ ht Iff.rfl
  exact {
    lookup := hr
    request := rfl
    bytes := rfl
    free := fun h => absurd h hfree
    before := fun k hk => Option.some.inj (hk.symm.trans ho)
    about := nofun
    legal := by simpa using I.log.legal
    tails := fun a ha => hfollow a (mem_of_mem_tail ha)
    owner := fun a ha => by
      have := hfollow a (mem_of_mem_head? ha)
      exact ⟨.of_free this, fun k hk => by rw [this] at hk; cases hk⟩
    self := by
      simp only [Consistent, hp, append_nil]
      exact ⟨hnone, .inr ⟨rfl, outcome, rfl, hacc⟩⟩ }

theorem Inv.kept_settle
    (ht : w.threads[t]? = some (.settle id prepared outcome :: rest)) :
    Kept B w t rest (settle w.state id prepared outcome a) := by
  have hacc : .accepted id outcome.effects ∈ w.events :=
    I.threads.carried _ (mem_of_getElem? ht) _ rfl
  unfold settle
  split
  · obtain ⟨hfree, r, hr, hp, hprep⟩ := I.owner_record ht rfl
    obtain ⟨hnone, -⟩ : _ ∧ _ := by
      simpa only [Consistent, hp] using I.table.consistent id r hr
    refine Touch.inv id I ht ?_
    exact {
      known := (I.table.issued id r hr).1
      records := fun _ _ => rfl
      sequence := rfl
      closing := rfl
      about := nofun
      legal := by simpa using I.log.legal
      free := fun h => absurd h hfree
      before := by rintro _ ⟨⟩; rfl
      tails := I.rest_free ht
      owner := by
        rintro _ ⟨⟩
        refine ⟨.inl ?_, by rintro _ ⟨⟩; exact ⟨rfl, r, hr, hp, hprep⟩⟩
        rw [authorized_effects]
        exact mem_append_left _ hacc
      self := by
        intro x hx
        cases hr.symm.trans hx
        refine ⟨(I.table.issued id r hr).2, ?_⟩
        simp only [Consistent, hp, append_nil]
        exact ⟨hnone, .inl (mem_append_left _ mem_cons_self)⟩
      ready := .inl ⟨rfl, rfl⟩
      budget := I.budget }
  · exact I.kept_restore ht rfl hacc (.inr rfl)
  · exact I.kept_restore ht rfl hacc (.inl rfl)

theorem Inv.kept_retain
    (ht : w.threads[t]? = some (.retain id prepared outcome :: rest)) :
    Kept B w t rest
      (restore w.state id prepared (authorized a (B.validateOutcome prepared.entry outcome)) (some [])) := by
  refine I.kept_restore ht rfl ?_ (.inr rfl)
  rw [authorized_effects, validateOutcome_effects]
  exact I.threads.carried _ (mem_of_getElem? ht) _ rfl

theorem Inv.kept_publish
    (ht : w.threads[t]? = some (.publish id outcome :: rest)) :
    Kept B w t rest (B.act w.state w.gates a (.publish id outcome)) := by
  obtain ⟨hfree, r, hr, hp, -⟩ := I.owner_record ht rfl
  obtain ⟨hnone, -⟩ : _ ∧ _ := by
    simpa only [Consistent, hp] using I.table.consistent id r hr
  obtain ⟨o, ho, hpub⟩ := publish_of_lookup (B := B) hr outcome
  have hev : Evident w.events id o.effects := by
    rw [ho]
    exact I.threads.carried _ (mem_of_getElem? ht) _ rfl
  have R : Rewrite B w t (.publish id outcome) id r { r with outcome := some o, phase := .completed }
      rest [.published id o] := {
    lookup := hr
    request := rfl
    bytes := rfl
    free := fun h => absurd h hfree
    before := by rintro _ ⟨⟩; rfl
    about := by simp [subject]
    legal := I.log.legal.append ⟨hnone, hev⟩
    tails := fun a ha => I.rest_free ht a (mem_of_mem_tail ha)
    owner := fun a ha => by
      have := I.rest_free ht a (mem_of_mem_head? ha)
      exact ⟨.of_free this, fun k hk => by rw [this] at hk; cases hk⟩
    self := ⟨o, rfl, mem_append_right _ mem_cons_self⟩ }
  have hq : HostRequestPhase.completed = .queued ↔ r.phase = .queued := by simp [hp]
  have hact : B.act w.state w.gates a (.publish id outcome) =
      ⟨(B.publish w.state id outcome).1, some [], [.published id o]⟩ := by
    rw [act, hpub]
  rw [hact, hpub, Kept]
  split
  · exact R.inv I ht hq
  · exact R.inv_remove I ht hq (I.rest_free ht) hfree

/-- A section of a call that holds no completion notes a cancellation or the end of a waiter. -/
theorem Inv.noted {l' : List Action} {evs : List BrokerEvent} (ht : w.threads[t]? = some (action :: rest))
    (ho : action.owner? = none) (hl : ∀ a ∈ l', a.owner? = none) (hr : w.state.records.lookup id = some r)
    (hn : Noted r r') (hevs : ∀ e ∈ evs, e = .cancelled id ∧ r.phase ≠ .queued)
    (hlegal : LegalLog Legal (w.events ++ evs)) : Rewrite B w t action id r r' l' evs := { hn with
  lookup := hr
  free h := by
    obtain ⟨r₁, hr₁, hp, hprep⟩ := I.threads.owned id (owners_eraseIdx_subset _ _ h)
    cases hr.symm.trans hr₁
    exact ⟨hl, ⟨hn.phase.trans hp, hn.prepared.trans hprep⟩, fun e he => (hevs e he).1⟩
  before k hk := by
    rw [ho] at hk
    cases hk
  about e he := by
    rw [(hevs e he).1]
    rfl
  legal := hlegal
  tails a ha := hl a (mem_of_mem_tail ha)
  owner a ha := by
    have := hl a (mem_of_mem_head? ha)
    exact ⟨.of_free this, fun k hk => by rw [this] at hk; cases hk⟩
  self := by
    refine (I.table.consistent id r hr).noted hn hevs fun h => mem_append_right _ ?_
    have := (owners_perm ht).mem_iff.1 h
    rwa [headOwner, head?_cons, Option.bind_some, ho] at this }

theorem Inv.kept_cancel {tolerant : Bool} (ht : w.threads[t]? = some (.cancel id error tolerant :: rest)) :
    Kept B w t rest (cancel w.state id error tolerant) := by
  have hlegal : LegalLog Legal (w.events ++ [.cancelled id]) := I.log.legal.append trivial
  unfold cancel
  split
  · exact I.kept_idle ht rfl (by cases tolerant <;> simp)
  next r hr =>
  by_cases hqueued : r.phase = .queued
  · obtain ⟨⟨prepared, hprep, -⟩, hsubject⟩ : _ ∧ _ := by
      simpa only [Consistent, hqueued] using I.table.consistent id r hr
    have hfree := I.free_record hr (.inl (by rw [hqueued]; rintro ⟨⟩))
    have hnew : ∀ e ∈ w.events ++ [.cancelled id], subject e = some id → e = .cancelled id := by
      intro e he hs
      rcases mem_append.1 he with he | he
      · exact absurd hs (hsubject e he)
      · exact mem_singleton.1 he
    simp only [hqueued, hprep, ne_eq, not_true_eq_false, if_false, reduceCtorEq]
    refine Rewrite.inv_ready (r := r) I ?_ ht (by rintro ⟨⟩) rfl
    exact {
      lookup := hr
      request := rfl
      bytes := rfl
      free := fun h => absurd (owners_eraseIdx_subset _ _ h) hfree
      before := by rintro _ ⟨⟩
      about := by simp [subject]
      legal := hlegal
      tails := I.rest_free ht
      owner := by
        rintro _ ⟨⟩
        refine ⟨.inr ⟨rfl, by simp, ?_⟩, by rintro _ ⟨⟩; exact ⟨rfl, rfl, rfl⟩⟩
        rintro ⟨req, hreq, hid⟩
        exact absurd (hnew _ hreq (congrArg some hid)) (by rintro ⟨⟩)
      self := ⟨fun o ho => absurd (hnew _ ho rfl) (by rintro ⟨⟩),
        .inl (mem_append_left _ mem_cons_self)⟩ }
  · split
    · exact I.kept_idle ht rfl (by simp)
    simp only [hqueued, ne_eq, not_false_eq_true, if_true]
    refine Rewrite.inv (r := r) I (I.noted ht rfl (I.rest_free ht) hr ⟨rfl, rfl, rfl, rfl, rfl, rfl⟩ ?_
      hlegal) ht Iff.rfl
    simpa using hqueued

theorem Inv.kept_accept
    (ht : w.threads[t]? = some (.accept id outcome :: rest)) :
    Kept B w t rest (accept w.state id outcome) := by
  unfold accept
  split
  · exact I.kept_idle ht rfl (by simp)
  next r hr =>
  split
  · next hp =>
    obtain ⟨hprep, ⟨req, hreq, hid⟩, hacc, hpub⟩ : _ ∧ _ ∧ _ ∧ _ := by
      simpa only [Consistent, hp] using I.table.consistent id r hr
    obtain ⟨prepared, hprep⟩ := Option.isSome_iff_exists.1 hprep
    have hfree := I.free_record hr (.inl (by rw [hp]; nofun))
    simp only [hprep]
    refine Rewrite.inv (r := r) I ?_ ht (by simp [hp])
    exact {
      lookup := hr
      request := rfl
      bytes := rfl
      free := fun h => absurd (owners_eraseIdx_subset _ _ h) hfree
      before := nofun
      about := by simp [subject]
      legal := I.log.legal.append ⟨⟨req, hreq, hid⟩, hacc⟩
      tails := I.rest_free ht
      owner := by
        rintro _ ⟨⟩
        exact ⟨mem_append_right _ mem_cons_self, by rintro _ ⟨⟩; exact ⟨rfl, rfl, rfl⟩⟩
      self := by
        refine ⟨fun o ho => ?_, .inl (mem_append_left _ mem_cons_self)⟩
        exact hpub o ((mem_append.1 ho).resolve_right (by simp)) }
  all_goals exact I.kept_idle ht rfl (by simp)

theorem Inv.kept_abandon (ht : w.threads[t]? = some (.abandon id :: rest)) :
    Kept B w t rest (B.abandon w.state id) := by
  have hfollow : ∀ a ∈ [Action.cancel id requestCancelled true] ++ rest, a.owner? = none := by
    intro a ha
    rcases mem_append.1 ha with ha | ha
    · rw [mem_singleton.1 ha]
      rfl
    · exact I.rest_free ht a ha
  have hlegal : LegalLog Legal (w.events ++ []) := by simpa using I.log.legal
  unfold abandon
  split
  · exact I.kept_idle ht rfl (by simp [Action.owner?])
  next r hr =>
  have hnoted : Noted r { r with waiterAlive := false } := ⟨rfl, rfl, rfl, rfl, rfl, rfl⟩
  split
  · next hp =>
    have hfree := I.free_record hr (.inl (by rw [hp]; nofun))
    exact Rewrite.inv_remove (r := r) I (I.noted ht rfl (I.rest_free ht) hr hnoted nofun hlegal) ht
      Iff.rfl (I.rest_free ht) fun h => hfree (owners_eraseIdx_subset _ _ h)
  · exact Rewrite.inv (r := r) I (I.noted ht rfl hfollow hr hnoted nofun hlegal) ht Iff.rfl

theorem Inv.kept_observe (ht : w.threads[t]? = some (.observe id :: rest)) :
    Kept B w t rest (observe w.state w.gates id a) := by
  unfold observe
  split
  · exact I.kept_idle ht rfl (by simp)
  split
  · exact I.kept_idle ht rfl (by simp)
  split
  · exact I.kept_idle ht rfl (by simp)
  · exact I.kept_idle ht rfl (by simp [Action.owner?])

theorem Inv.kept_close (ht : w.threads[t]? = some (.close :: rest)) :
    Kept B w t rest (B.act w.state w.gates a .close) := by
  have hl : ∀ x ∈ (B.act w.state w.gates a .close).follow rest, x.owner? = none := by
    intro x hx
    rcases mem_append.1 hx with hx | hx
    · obtain ⟨k, -, rfl⟩ := mem_map.1 hx
      rfl
    · exact I.rest_free ht x hx
  refine Quiet.inv I ⟨⟨true, rfl⟩, rfl, ?_, fun _ => rfl, ?_, owners_set_free ht rfl hl, ?_⟩
  · exact fun e he => .inl (mem_singleton.1 he)
  · intro k hk
    exact I.log.retired k ((mem_append.1 hk).resolve_right (by simp [act]))
  · intro x hx
    rcases (mem_set_threads ht).1 hx with rfl | hx
    · exact .inr hl
    · exact .inl (mem_of_mem_eraseIdx hx)

/-- The head of the queue is handed over: it is queued, so nothing happened to it yet. -/
theorem Inv.kept_delivery {limit : ℕ} {remainingMs : ℕ} (ht : w.threads[t]? = some (.taking limit :: rest))
    (hclosing : ¬ w.state.closing) (hready : w.state.ready = id :: ready)
    (hr : w.state.records.lookup id = some r) (hp : r.phase = .queued) (hprep : r.prepared = some prepared)
    (hgate : prepared.entry.id ∉ w.gates.closed) : Kept B w t rest ⟨{ w.state with
      ready := ready, records := w.state.records.insert id { r with phase := .dispatched } },
      some [.taking (limit - 1)], [.delivered { r.request with remainingMs := remainingMs }]⟩ := by
  obtain ⟨⟨prepared', hprep', hreg⟩, hsubject⟩ : _ ∧ _ := by
    simpa only [Consistent, hp] using I.table.consistent id r hr
  cases hprep.symm.trans hprep'
  have hfree := I.free_record hr (.inl (by rw [hp]; nofun))
  obtain ⟨hissued, hid⟩ := I.table.issued id r hr
  have hnodup : (id :: ready).Nodup := by
    rw [← hready, I.table.ready]
    exact I.log.nodup.filter _
  have hfilter : ready = w.state.ready.filter (· ≠ id) := by
    rw [hready, filter_cons_of_neg (by simp)]
    refine (filter_eq_self.2 fun k hk => ?_).symm
    exact decide_eq_true fun h => (nodup_cons.1 hnodup).1 (h ▸ hk)
  refine Rewrite.inv_ready (r := r) I ?_ ht (by nofun) hfilter
  have hnew {e : BrokerEvent} (hs : subject e = some id) (hne : ∀ request, e ≠ .delivered request) :
      e ∉ w.events ++ [.delivered { r.request with remainingMs := remainingMs }] := by
    intro he
    rcases mem_append.1 he with he | he
    · exact hsubject e he hs
    · exact hne _ (mem_singleton.1 he)
  exact {
    lookup := hr
    request := rfl
    bytes := rfl
    free := fun h => absurd (owners_eraseIdx_subset _ _ h) hfree
    before := nofun
    about := fun e he => by
      rw [mem_singleton.1 he]
      exact congrArg some hid
    legal := by
      refine I.log.legal.append ⟨?_, ?_, ?_, ?_, ?_⟩
      · change .submitted r.request.requestId ∈ w.events
        rw [hid]
        obtain ⟨e, he, hsome⟩ := mem_filterMap.1 hissued
        cases e <;> cases hsome
        exact he
      · rintro ⟨req, hreq, hsame⟩
        exact hsubject _ hreq (congrArg some (hsame.trans hid))
      · exact fun h => hsubject _ h (congrArg some hid)
      · exact fun h => hgate (hreg ▸ I.log.retired _ h)
      · exact fun h => hclosing (I.log.closed h)
    tails := I.rest_free ht
    owner := by
      rintro _ ⟨⟩
      exact ⟨trivial, nofun⟩
    self := ⟨by rw [hprep]; rfl, ⟨_, mem_append_right _ mem_cons_self, hid⟩,
      fun x => hnew rfl nofun, fun o => hnew rfl nofun⟩ }

theorem Inv.kept_taking {limit : ℕ} (ht : w.threads[t]? = some (.taking limit :: rest)) :
    Kept B w t rest (taking w.state w.gates limit a) := by
  unfold taking
  split
  · exact I.kept_idle ht rfl (by simp)
  have hround := takeNext_round w.state w.gates a
  generalize takeNext w.state w.gates a = x at hround
  cases hround with
  | stays d hd =>
    cases d with
    | delivered request => exact absurd rfl (hd request)
    | idle | failed => exact I.kept_idle ht rfl (by simp)
    | refused => exact I.kept_idle ht rfl (by simp [Action.owner?])
  | delivers id ready r prepared hclosing hready hr hp hprep hgate =>
    exact I.kept_delivery ht hclosing hready hr hp hprep hgate

theorem Inv.kept_act (ht : w.threads[t]? = some (action :: rest)) :
    Kept B w t rest (B.act w.state w.gates a action) := by
  cases action with
  | maintain | scan =>
    refine I.kept_idle ht rfl ?_
    rintro _ ⟨⟩ x hx
    obtain ⟨e, -, rfl⟩ := mem_map.1 hx
    rfl
  | drive => exact I.kept_drive ht
  | settle => exact I.kept_settle ht
  | observe => exact I.kept_observe ht
  | cancel => exact I.kept_cancel ht
  | publish => exact I.kept_publish ht
  | accept => exact I.kept_accept ht
  | retain => exact I.kept_retain ht
  | taking => exact I.kept_taking ht
  | abandon => exact I.kept_abandon ht
  | close => exact I.kept_close ht

end

end HostRequestBroker

end LuaSkills.Embedded
