import LuaSkills.Data.EventLog
import LuaSkills.Embedded.Broker.State

/-!
# The invariant of the broker

A record that is completing has its completion in the record or in exactly one call that is under way;
every other phase is settled by the record alone. The queue is the list of issued identities filtered
by phase. The events of a run were legal when they happened.
-/

namespace LuaSkills.Embedded

open List

namespace HostRequestBroker

/-- The identities in the order of their submission. -/
def issued (events : List BrokerEvent) : List String :=
  events.filterMap fun
    | .submitted id => some id
    | _ => none

def subject : BrokerEvent → Option String
  | .delivered request => some request.requestId
  | .cancelled id | .accepted id _ | .published id _ => some id
  | _ => none

def Delivered (events : List BrokerEvent) (id : String) : Prop :=
  ∃ request, .delivered request ∈ events ∧ request.requestId = id

/-- The evidence that an outcome with these effects carries: they were reported by the accepted
completion, or the request was cancelled before it was handed over. -/
def Evident (events : List BrokerEvent) (id : String) (effects : EffectState) : Prop :=
  .accepted id effects ∈ events ∨
    (effects = .notStarted ∧ .cancelled id ∈ events ∧ ¬ Delivered events id)

/-- What may happen after `before`. -/
def Legal (before : List BrokerEvent) : BrokerEvent → Prop
  | .submitted id => .submitted id ∉ before
  | .delivered request =>
    .submitted request.requestId ∈ before ∧ ¬ Delivered before request.requestId ∧
      .cancelled request.requestId ∉ before ∧ .retired request.registrationId ∉ before ∧
      .closed ∉ before
  | .accepted id _ => Delivered before id ∧ ∀ effects, .accepted id effects ∉ before
  | .published id outcome =>
    (∀ outcome, .published id outcome ∉ before) ∧ Evident before id outcome.effects
  | .cancelled _ | .retired _ | .closed => True

def isQueued (s : BrokerState) (id : String) : Bool :=
  (s.records.lookup id).any (·.phase = .queued)

/-- The completions that calls under way own. -/
def owners (threads : List (List Action)) : List String :=
  threads.filterMap fun t => t.head?.bind Action.owner?

/-- A record with the events about it. -/
def Consistent (events : List BrokerEvent) (owned : Prop) (id : String) (r : RequestRecord) : Prop :=
  match r.phase with
  | .queued => (∃ p, r.prepared = some p ∧ p.entry.id = r.request.registrationId) ∧
      ∀ e ∈ events, subject e ≠ some id
  | .dispatched => r.prepared.isSome ∧ Delivered events id ∧
      (∀ effects, .accepted id effects ∉ events) ∧ ∀ outcome, .published id outcome ∉ events
  | .completing => (∀ outcome, .published id outcome ∉ events) ∧
      (owned ∨ r.prepared.isSome ∧ ∃ o ∈ r.pendingOutcome, .accepted id o.effects ∈ events)
  | .completed => ∃ o ∈ r.outcome, .published id o ∈ events

def Carried (events : List BrokerEvent) : Action → Prop
  | .settle id _ outcome | .retain id _ outcome => .accepted id outcome.effects ∈ events
  | .publish id outcome => Evident events id outcome.effects
  | _ => True

/-- Identities are issued once, and every event is about an issued one. -/
structure LogInv (B : HostRequestBroker) (w : BrokerWorld) : Prop where
  legal : LegalLog Legal w.events
  numbered : ∀ id ∈ issued w.events, ∃ k ≤ w.state.sequence, id = B.hostId k
  nodup : (issued w.events).Nodup
  known : ∀ e ∈ w.events, ∀ id, subject e = some id → id ∈ issued w.events
  closed : .closed ∈ w.events → w.state.closing
  retired : ∀ registrationId, .retired registrationId ∈ w.events →
    registrationId ∈ w.gates.closed

structure TableInv (w : BrokerWorld) : Prop where
  issued : ∀ id r, w.state.records.lookup id = some r →
    id ∈ HostRequestBroker.issued w.events ∧ r.request.requestId = id
  consistent : ∀ id r, w.state.records.lookup id = some r →
    Consistent w.events (id ∈ owners w.threads) id r
  ready : w.state.ready = (HostRequestBroker.issued w.events).filter (isQueued w.state)

structure BudgetInv (B : HostRequestBroker) (s : BrokerState) : Prop where
  bytes : s.bytes = s.records.sumBy fun _ r => r.bytes
  bytes_le : s.bytes ≤ B.maxBytes
  size_le : s.records.size ≤ B.maxRecords
  tombstones_le : s.tombstones.length ≤ B.maxRecords

structure ThreadInv (w : BrokerWorld) : Prop where
  nodup : (owners w.threads).Nodup
  owned : ∀ id ∈ owners w.threads, ∃ r, w.state.records.lookup id = some r ∧
    r.phase = .completing ∧ r.prepared = none
  tails : ∀ t ∈ w.threads, ∀ a ∈ t.tail, a.owner? = none
  carried : ∀ t ∈ w.threads, ∀ a ∈ t.head?, Carried w.events a

structure Inv (B : HostRequestBroker) (w : BrokerWorld) : Prop where
  log : LogInv B w
  table : TableInv w
  budget : BudgetInv B w.state
  threads : ThreadInv w

/-! ## Owners -/

section
variable {threads : List (List Action)} {t : ℕ} {l l' : List Action} {id : String}

/-- The owner among the sections of one call. -/
def headOwner (l : List Action) : List String := (l.head?.bind Action.owner?).toList

theorem owners_perm (h : threads[t]? = some l) :
    (owners threads).Perm (headOwner l ++ owners (threads.eraseIdx t)) := by
  obtain ⟨ht, rfl⟩ := List.getElem?_eq_some_iff.1 h
  have := (getElem_cons_eraseIdx_perm ht).symm.filterMap fun t => t.head?.bind Action.owner?
  refine this.trans (.of_eq ?_)
  simp only [owners, headOwner, filterMap_cons]
  cases threads[t].head?.bind Action.owner? <;> rfl

theorem owners_set_perm (h : threads[t]? = some l) :
    (owners (threads.set t l')).Perm (headOwner l' ++ owners (threads.eraseIdx t)) := by
  have ht : t < threads.length := (List.getElem?_eq_some_iff.1 h).1
  have := owners_perm (getElem?_set_self ht : (threads.set t l')[t]? = some l')
  rwa [eraseIdx_set_eq] at this

theorem mem_set_threads (h : threads[t]? = some l) :
    x ∈ threads.set t l' ↔ x = l' ∨ x ∈ threads.eraseIdx t := by
  have ht : t < (threads.set t l').length := by
    rw [length_set]
    exact (List.getElem?_eq_some_iff.1 h).1
  have := (getElem_cons_eraseIdx_perm ht).mem_iff (a := x)
  rw [getElem_set_self, eraseIdx_set_eq, mem_cons] at this
  exact this.symm

theorem mem_owners (hx : x ∈ threads) (ha : a ∈ x.head?) (ho : a.owner? = some id) :
    id ∈ owners threads := by
  refine mem_filterMap.2 ⟨x, hx, ?_⟩
  rw [Option.mem_def.1 ha]
  exact ho

end

/-! ## Framing -/

section
variable {events events' : List BrokerEvent} {id : String} {owned owned' : Prop} {r : RequestRecord}

theorem Consistent.mono (h : Consistent events owned id r) (hsub : events ⊆ events')
    (hnew : ∀ e ∈ events', subject e = some id → e ∈ events) (ho : owned → owned') :
    Consistent events' owned' id r := by
  unfold Consistent at h ⊢
  split
  · next hp =>
    simp only [hp] at h
    exact ⟨h.1, fun e he hs => h.2 e (hnew e he hs) hs⟩
  · next hp =>
    simp only [hp] at h
    obtain ⟨hpr, ⟨req, hreq, hid⟩, ha, hpub⟩ := h
    exact ⟨hpr, ⟨req, hsub hreq, hid⟩, fun x hx => ha x (hnew _ hx rfl),
      fun o ho => hpub o (hnew _ ho rfl)⟩
  · next hp =>
    simp only [hp] at h
    refine ⟨fun o ho => h.1 o (hnew _ ho rfl), h.2.imp ho ?_⟩
    rintro ⟨hpr, o, hmem, hacc⟩
    exact ⟨hpr, o, hmem, hsub hacc⟩
  · next hp =>
    simp only [hp] at h
    obtain ⟨o, hmem, hpub⟩ := h
    exact ⟨o, hmem, hsub hpub⟩

theorem Evident.mono (h : Evident events id effects) (hsub : events ⊆ events')
    (hnew : Delivered events' id → Delivered events id) : Evident events' id effects :=
  h.imp (fun h => hsub h) fun ⟨he, hc, hd⟩ => ⟨he, hsub hc, fun h => hd (hnew h)⟩

theorem Carried.mono (h : Carried events a) (hsub : events ⊆ events')
    (hnew : ∀ id, a.owner? = some id → Delivered events' id → Delivered events id) : Carried events' a := by
  cases a with
  | settle | retain => exact hsub h
  | publish id outcome => exact Evident.mono h hsub (hnew id rfl)
  | _ => trivial

end

theorem issued_append {events evs : List BrokerEvent} (h : ∀ e ∈ evs, (subject e).isSome) :
    issued (events ++ evs) = issued events := by
  rw [issued, filterMap_append]
  have : evs.filterMap (fun | .submitted id => some id | _ => none) = ([] : List String) := by
    refine filterMap_eq_nil_iff.2 fun e he => ?_
    have := h e he
    cases e <;> simp [subject] at this ⊢
  rw [this, append_nil]
  rfl

theorem isQueued_congr {s s' : BrokerState} {id : String}
    (h : s'.records.lookup id = s.records.lookup id) : isQueued s' id = isQueued s id := by
  rw [isQueued, h, isQueued]

/-! ## One section -/

variable {B : HostRequestBroker} {w : BrokerWorld} {t : ℕ} {action : Action} {rest l' : List Action}
  {id : String} {s' : BrokerState} {evs : List BrokerEvent} {r : RequestRecord}

/-- The world after a section of the call `t`. -/
def after (w : BrokerWorld) (t : ℕ) (s' : BrokerState) (l' : List Action) (evs : List BrokerEvent) :
    BrokerWorld :=
  { w with state := s', threads := w.threads.set t l', events := w.events ++ evs }

/-- What a section does that concerns the request `id` alone. While another call holds the completion
of the request, a section can only note a cancellation. -/
structure Touch (B : HostRequestBroker) (w : BrokerWorld) (t : ℕ) (action : Action) (id : String)
    (s' : BrokerState) (l' : List Action) (evs : List BrokerEvent) : Prop where
  known : id ∈ issued w.events
  records : ∀ k, k ≠ id → s'.records.lookup k = w.state.records.lookup k
  sequence : s'.sequence = w.state.sequence
  closing : s'.closing = w.state.closing
  about : ∀ e ∈ evs, subject e = some id
  legal : LegalLog Legal (w.events ++ evs)
  free : id ∈ owners (w.threads.eraseIdx t) → (∀ a ∈ l', a.owner? = none) ∧
    (∃ r, s'.records.lookup id = some r ∧ r.phase = .completing ∧ r.prepared = none) ∧
    ∀ e ∈ evs, e = .cancelled id
  before : ∀ k ∈ action.owner?, k = id
  tails : ∀ a ∈ l'.tail, a.owner? = none
  owner : ∀ a ∈ l'.head?, Carried (w.events ++ evs) a ∧ ∀ k ∈ a.owner?, k = id ∧
    ∃ r, s'.records.lookup id = some r ∧ r.phase = .completing ∧ r.prepared = none
  self : ∀ r, s'.records.lookup id = some r → r.request.requestId = id ∧
    Consistent (w.events ++ evs) (id ∈ headOwner l' ++ owners (w.threads.eraseIdx t)) id r
  ready : s'.ready = w.state.ready ∧ isQueued s' id = isQueued w.state id ∨
    s'.ready = w.state.ready.filter (· ≠ id) ∧ isQueued s' id = false
  budget : BudgetInv B s'

section
variable (I : Inv B w) (ht : w.threads[t]? = some (action :: rest))
  (T : Touch B w t action id s' l' evs)
include I T

omit I in
theorem Touch.issued_eq : issued (w.events ++ evs) = issued w.events :=
  issued_append fun e he => by rw [T.about e he]; rfl

omit I in
theorem Touch.new (hk : k ≠ id) : ∀ e ∈ w.events ++ evs, subject e = some k → e ∈ w.events := by
  intro e he hs
  rcases mem_append.1 he with he | he
  · exact he
  · exact absurd (Option.some.inj (hs.symm.trans (T.about e he))) hk

theorem Touch.log : LogInv B (after w t s' l' evs) where
  legal := T.legal
  numbered k hk := by
    have hk : k ∈ issued (w.events ++ evs) := hk
    rw [T.issued_eq] at hk
    obtain ⟨n, hn, rfl⟩ := I.log.numbered k hk
    exact ⟨n, T.sequence ▸ hn, rfl⟩
  nodup := by
    change (issued (w.events ++ evs)).Nodup
    rw [T.issued_eq]
    exact I.log.nodup
  known e he k hk := by
    change k ∈ issued (w.events ++ evs)
    rw [T.issued_eq]
    rcases mem_append.1 he with he | he
    · exact I.log.known e he k hk
    · cases hk.symm.trans (T.about e he)
      exact T.known
  closed h := by
    change s'.closing
    rw [T.closing]
    rcases mem_append.1 h with h | h
    · exact I.log.closed h
    · exact absurd (T.about _ h) nofun
  retired k h := by
    rcases mem_append.1 h with h | h
    · exact I.log.retired k h
    · exact absurd (T.about _ h) nofun

omit I in
theorem Touch.ready_eq (hr : w.state.ready = (issued w.events).filter (isQueued w.state)) :
    s'.ready = (issued w.events).filter (isQueued s') := by
  have hother : ∀ k, k ≠ id → isQueued s' k = isQueued w.state k :=
    fun k hk => isQueued_congr (T.records k hk)
  rcases T.ready with ⟨hready, hq⟩ | ⟨hready, hq⟩
  · rw [hready, hr]
    refine filter_congr fun k _ => ?_
    by_cases hk : k = id
    · rw [hk, hq]
    · rw [hother k hk]
  · rw [hready, hr, filter_filter]
    refine filter_congr fun k _ => ?_
    by_cases hk : k = id
    · simp [hk, hq]
    · simp [hk, hother k hk]

include ht

omit I in
theorem Touch.mem_owners_of_ne (hk : k ≠ id) : k ∈ owners (w.threads.set t l') ↔ k ∈ owners w.threads := by
  rw [(owners_set_perm ht).mem_iff, (owners_perm ht).mem_iff, mem_append, mem_append]
  have hbefore : k ∉ headOwner (action :: rest) := by
    intro h
    simp only [headOwner, head?_cons, Option.bind_some, Option.mem_toList] at h
    exact hk (T.before k h)
  have hafter : k ∉ headOwner l' := by
    intro h
    simp only [headOwner, Option.mem_toList, Option.bind_eq_some_iff] at h
    obtain ⟨a, ha, hown⟩ := h
    exact hk ((T.owner a ha).2 k hown).1
  simp [hbefore, hafter]

theorem Touch.table : TableInv (after w t s' l' evs) where
  issued k r hr := by
    change k ∈ issued (w.events ++ evs) ∧ _
    rw [T.issued_eq]
    by_cases hk : k = id
    · subst hk
      exact ⟨T.known, (T.self r hr).1⟩
    · exact I.table.issued k r ((T.records k hk).symm.trans hr)
  consistent k r hr := by
    by_cases hk : k = id
    · subst hk
      refine (T.self r hr).2.mono (fun _ h => h) (fun _ h _ => h) fun h => ?_
      exact (owners_set_perm ht).mem_iff.2 h
    · refine (I.table.consistent k r ((T.records k hk).symm.trans hr)).mono
        (subset_append_left _ _) (T.new hk) ?_
      exact (T.mem_owners_of_ne ht hk).2
  ready := by
    change s'.ready = (issued (w.events ++ evs)).filter (isQueued s')
    rw [T.issued_eq]
    exact T.ready_eq I.table.ready

theorem Touch.threads : ThreadInv (after w t s' l' evs) where
  nodup := by
    have hperm := (owners_perm ht).nodup_iff.1 I.threads.nodup
    refine (owners_set_perm ht).nodup_iff.2 (nodup_append.2 ⟨?_, (nodup_append.1 hperm).2.1, ?_⟩)
    · unfold headOwner
      cases l'.head?.bind Action.owner? <;> simp
    · intro k hk k' hk' heq
      subst heq
      simp only [headOwner, Option.mem_toList, Option.bind_eq_some_iff] at hk
      obtain ⟨a, ha, hown⟩ := hk
      cases ((T.owner a ha).2 k hown).1
      have hnone := (T.free hk').1 a (mem_of_mem_head? ha)
      rw [hnone] at hown
      cases hown
  owned k hk := by
    have hk := (owners_set_perm ht).mem_iff.1 hk
    rcases mem_append.1 hk with hk | hk
    · simp only [headOwner, Option.mem_toList, Option.bind_eq_some_iff] at hk
      obtain ⟨a, ha, hown⟩ := hk
      obtain ⟨rfl, hr⟩ := (T.owner a ha).2 k hown
      exact hr
    · by_cases hne : k = id
      · subst hne
        exact (T.free hk).2.1
      · obtain ⟨r, hr, hrest⟩ := I.threads.owned k
          ((owners_perm ht).mem_iff.2 (mem_append_right _ hk))
        exact ⟨r, (T.records k hne).trans hr, hrest⟩
  tails x hx a ha := by
    rcases (mem_set_threads ht).1 hx with rfl | hx
    · exact T.tails a ha
    · exact I.threads.tails x (mem_of_mem_eraseIdx hx) a ha
  carried x hx a ha := by
    rcases (mem_set_threads ht).1 hx with rfl | hx
    · exact (T.owner a ha).1
    · refine (I.threads.carried x (mem_of_mem_eraseIdx hx) a ha).mono
        (subset_append_left _ _) ?_
      rintro k hown ⟨req, hreq, hid⟩
      refine ⟨req, (mem_append.1 hreq).resolve_right fun hreq => ?_, hid⟩
      have hk : k = id := Option.some.inj ((congrArg some hid.symm).trans (T.about _ hreq))
      exact absurd ((T.free (hk ▸ mem_owners hx ha hown)).2.2 _ hreq) nofun

variable (id) in
/-- A section that concerns one request keeps the invariant. -/
theorem Touch.inv : Inv B (after w t s' l' evs) :=
  ⟨T.log I, T.table I ht, T.budget, T.threads I ht⟩

end

end HostRequestBroker

end LuaSkills.Embedded
