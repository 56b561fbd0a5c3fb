import LuaSkills.Embedded.Registry.Accounts

/-!
# The log of the registry

What each event means for the calls and registrations that are left, and which events may follow
which. `Chronicle` is kept by every move, and the order of two events in a run is read off it.
-/

namespace LuaSkills.Embedded

open AList List

/-- The event of the broker that a log entry carries. -/
def RegistryEvent.broker? : RegistryEvent → Option BrokerEvent
  | .broker event => some event
  | _ => none

/-- The status that a call of the registry returned. -/
def RegistryEvent.status? : RegistryEvent → Option CapabilityRegistrationStatus
  | .reported status | .unregistered status => some status
  | _ => none

namespace CapabilityRegistry

def SaidDrained (log : List RegistryEvent) (id : String) : Prop :=
  ∃ event ∈ log, ∃ status, event.status? = some status ∧ status.registrationId = id ∧
    status.drained = true

/-- What may happen after `before`. -/
def Lawful (before : List RegistryEvent) : RegistryEvent → Prop
  | .admitted _ id finalization => .broker (.retired id) ∉ before ∧ ¬ SaidDrained before id ∧
      (.shutdownBegun ∈ before → finalization = true)
  | .passedGate _ id => .broker (.retired id) ∉ before
  | .started call id => .passedGate call id ∈ before ∧ .released call ∉ before
  | .unregistered status => .broker (.retired status.registrationId) ∈ before ∧
      (status.inFlight = 0 → ∀ call, .passedGate call status.registrationId ∈ before →
        .released call ∈ before) ∧
      (status.drained = true → status.inFlight = 0)
  | .released _ | .reported _ | .shutdownBegun | .broker _ => True

structure Chronicle (R : CapabilityRegistry) (heap : AssocMap String EntryState)
    (calls : AssocMap ℕ AdmittedCall) (nextCall : ℕ) (tasks : AssocMap ℕ RegistryTask)
    (broker : BrokerWorld) (log : List RegistryEvent) : Prop where
  protocol : HostRequestBroker.Inv R.broker broker
  projected : log.filterMap RegistryEvent.broker? = broker.events
  lawful : LegalLog Lawful log
  retired : ∀ id, .retired id ∈ broker.events → ∃ e, heap.lookup id = some e ∧ e.accepting = false
  retiring : ∀ k id stage, tasks.lookup k = some (.unregister id stage) → stage ≠ .closing →
    .retired id ∈ broker.events
  drained : ∀ id, SaidDrained log id → ∃ e, heap.lookup id = some e ∧ e.drained = true
  passed : ∀ call id, .passedGate call id ∈ log → .released call ∈ log ∨
    ∃ c, calls.lookup call = some c ∧ c.entryId = id
  dispatching : ∀ call c, calls.lookup call = some c → c.stage = .dispatching →
    .passedGate call c.entryId ∈ log
  released : ∀ call, .released call ∈ log → call ∉ calls ∧ call < nextCall

section
variable {R : CapabilityRegistry} {heap heap' : AssocMap String EntryState}
  {calls : AssocMap ℕ AdmittedCall} {tasks tasks' : AssocMap ℕ RegistryTask} {nextCall : ℕ}
  {broker : BrokerWorld} {log : List RegistryEvent} {id : String} {e e' : EntryState}

theorem mem_projected : event ∈ log.filterMap RegistryEvent.broker? ↔ .broker event ∈ log := by
  rw [mem_filterMap]
  constructor
  · rintro ⟨x, hx, heq⟩
    cases x with
    | broker y =>
      cases heq
      exact hx
    | _ => cases heq
  · intro h
    exact ⟨_, h, rfl⟩

theorem Chronicle.retired_mem (h : Chronicle R heap calls nextCall tasks broker log) :
    .retired id ∈ broker.events ↔ .broker (.retired id) ∈ log := by
  rw [← h.projected, mem_projected]

/-! ## Registrations -/

/-- Registrations stay, closed ones stay closed and drained ones stay drained. -/
def Persists (heap heap' : AssocMap String EntryState) : Prop :=
  ∀ id e, heap.lookup id = some e → ∃ e', heap'.lookup id = some e' ∧
    (e.accepting = false → e'.accepting = false) ∧ (e.drained = true → e'.drained = true)

theorem Persists.setEntry (he : heap.lookup id = some e)
    (hacc : e.accepting = false → e'.accepting = false)
    (hdrained : e.drained = true → e'.drained = true) : Persists heap (heap.insert id e') := by
  intro i x hx
  rw [lookup_insert_eq]
  split
  next hi =>
    rw [hi, he] at hx
    cases hx
    exact ⟨e', rfl, hacc, hdrained⟩
  next => exact ⟨x, hx, fun h => h, fun h => h⟩

theorem Persists.publish (hid : id ∉ heap) : Persists heap (heap.insert id e) := by
  intro i x hx
  rw [lookup_insert_eq, if_neg]
  · exact ⟨x, hx, fun h => h, fun h => h⟩
  · rintro rfl
    exact hid (mem_of_lookup hx)

theorem Chronicle.withHeap (h : Chronicle R heap calls nextCall tasks broker log)
    (hheap : Persists heap heap') : Chronicle R heap' calls nextCall tasks broker log := { h with
  retired := by
    intro i hi
    obtain ⟨x, hx, hacc⟩ := h.retired i hi
    obtain ⟨x', hx', hacc', -⟩ := hheap i x hx
    exact ⟨x', hx', hacc' hacc⟩
  drained := by
    intro i hi
    obtain ⟨x, hx, hd⟩ := h.drained i hi
    obtain ⟨x', hx', -, hd'⟩ := hheap i x hx
    exact ⟨x', hx', hd' hd⟩ }

theorem Chronicle.withTasks (h : Chronicle R heap calls nextCall tasks broker log)
    (htasks : ∀ k i stage, tasks'.lookup k = some (.unregister i stage) → stage ≠ .closing →
      .retired i ∈ broker.events) : Chronicle R heap calls nextCall tasks' broker log := { h with
  retiring := htasks }

/-- A call moves to another stage; to its dispatch only after it passed the gate. -/
theorem Chronicle.setCall {c' : AdmittedCall} (h : Chronicle R heap calls nextCall tasks broker log)
    (hc : calls.lookup k = some c) (hentry : c'.entryId = c.entryId)
    (hstage : c'.stage = .dispatching → .passedGate k c'.entryId ∈ log) :
    Chronicle R heap (calls.insert k c') nextCall tasks broker log := { h with
  passed := by
    intro call i hmem
    rcases h.passed call i hmem with hrel | ⟨x, hx, hi⟩
    · exact .inl hrel
    · refine .inr ?_
      rw [lookup_insert_eq]
      split
      next heq =>
        rw [heq, hc] at hx
        cases hx
        exact ⟨c', rfl, hentry.trans hi⟩
      next => exact ⟨x, hx, hi⟩
  dispatching := by
    intro call x hx hs
    rcases lookup_of_insert hx with ⟨heq, rfl⟩ | ⟨-, hx⟩
    · rw [heq]
      exact hstage hs
    · exact h.dispatching call x hx hs
  released := by
    intro call hrel
    obtain ⟨hmem, hlt⟩ := h.released call hrel
    refine ⟨?_, hlt⟩
    rw [mem_insert]
    rintro (rfl | hx)
    · exact hmem (mem_of_lookup hc)
    · exact hmem hx }

theorem Chronicle.addCall {c : AdmittedCall} (h : Chronicle R heap calls nextCall tasks broker log)
    (hnew : nextCall ∉ calls) (hstage : c.stage ≠ .dispatching) :
    Chronicle R heap (calls.insert nextCall c) (nextCall + 1) tasks broker log := { h with
  passed := by
    intro call i hmem
    rcases h.passed call i hmem with hrel | ⟨x, hx, hi⟩
    · exact .inl hrel
    · refine .inr ⟨x, ?_, hi⟩
      rw [lookup_insert_eq, if_neg, hx]
      rintro rfl
      exact hnew (mem_of_lookup hx)
  dispatching := by
    intro call x hx hs
    rcases lookup_of_insert hx with ⟨-, rfl⟩ | ⟨-, hx⟩
    · exact absurd hs hstage
    · exact h.dispatching call x hx hs
  released := by
    intro call hrel
    obtain ⟨hmem, hlt⟩ := h.released call hrel
    refine ⟨?_, hlt.trans (Nat.lt_succ_self _)⟩
    rw [mem_insert]
    rintro (rfl | hx)
    · exact lt_irrefl _ hlt
    · exact hmem hx }

theorem Chronicle.dropCall (h : Chronicle R heap calls nextCall tasks broker log)
    (hc : calls.lookup k = some c) (hk : k < nextCall) :
    Chronicle R heap (calls.erase k) nextCall tasks broker (log ++ [.released k]) := { h with
  projected := by
    rw [filterMap_append, h.projected]
    simp [RegistryEvent.broker?]
  lawful := h.lawful.append trivial
  drained := by
    rintro i ⟨x, hx, status, hs, hi⟩
    rcases mem_append.1 hx with hx | hx
    · exact h.drained _ ⟨x, hx, status, hs, hi⟩
    · cases mem_singleton.1 hx
      cases hs
  passed := by
    intro call i hmem
    by_cases hcall : call = k
    · exact .inl (by simp [hcall])
    · rcases h.passed call i (by simpa using hmem) with hrel | ⟨x, hx, hi⟩
      · exact .inl (mem_append_left _ hrel)
      · exact .inr ⟨x, by rw [lookup_erase_eq, if_neg hcall, hx], hi⟩
  dispatching := by
    intro call x hx hs
    exact mem_append_left _ (h.dispatching call x (lookup_of_erase hx).2 hs)
  released := by
    intro call hrel
    by_cases hcall : call = k
    · subst hcall
      refine ⟨?_, hk⟩
      rw [mem_iff_lookup]
      rintro ⟨x, hx⟩
      simp at hx
    · obtain ⟨hmem, hlt⟩ := h.released call (by simpa [hcall] using hrel)
      exact ⟨fun hx => hmem ((mem_erase.1 hx).2), hlt⟩ }

/-! ## Events -/

/-- One event joins the log. -/
theorem Chronicle.record {event : RegistryEvent}
    (h : Chronicle R heap calls nextCall tasks broker log) (hbroker : event.broker? = none)
    (hlawful : Lawful log event)
    (hdrained : ∀ status, event.status? = some status → status.drained = true →
      ∃ e, heap.lookup status.registrationId = some e ∧ e.drained = true)
    (hpassed : ∀ call i, event = .passedGate call i →
      ∃ c, calls.lookup call = some c ∧ c.entryId = i)
    (hreleased : ∀ call, event = .released call → call ∉ calls ∧ call < nextCall) :
    Chronicle R heap calls nextCall tasks broker (log ++ [event]) := { h with
  projected := by
    rw [filterMap_append, h.projected]
    simp [hbroker]
  lawful := h.lawful.append hlawful
  drained := by
    rintro i ⟨x, hx, status, hs, rfl, hd⟩
    rcases mem_append.1 hx with hx | hx
    · exact h.drained _ ⟨x, hx, status, hs, rfl, hd⟩
    · cases mem_singleton.1 hx
      exact hdrained status hs hd
  passed := by
    intro call i hmem
    rcases mem_append.1 hmem with hmem | hmem
    · exact (h.passed call i hmem).imp_left (mem_append_left _)
    · exact .inr (hpassed call i (mem_singleton.1 hmem).symm)
  dispatching := fun call c hc hs => mem_append_left _ (h.dispatching call c hc hs)
  released := by
    intro call hrel
    rcases mem_append.1 hrel with hrel | hrel
    · exact h.released call hrel
    · exact hreleased call (mem_singleton.1 hrel).symm }

theorem filterMap_map_broker (events : List BrokerEvent) :
    (events.map RegistryEvent.broker).filterMap RegistryEvent.broker? = events := by
  rw [filterMap_map]
  exact filterMap_some

theorem lawful_append_broker {events : List BrokerEvent} (h : LegalLog Lawful log) :
    LegalLog Lawful (log ++ events.map .broker) := by
  induction events using reverseRecOn with
  | nil => simpa using h
  | append_singleton rest event ih =>
    rw [map_append, ← append_assoc]
    exact ih.append trivial

/-- The broker moves on; only `closeGate` retires a registration. -/
theorem Chronicle.withBroker (h : Chronicle R heap calls nextCall tasks broker log)
    (broker' : BrokerWorld) (events : List BrokerEvent)
    (hinv : HostRequestBroker.Inv R.broker broker') (hevents : broker'.events = broker.events ++ events)
    (hretired : ∀ i, .retired i ∈ events → ∃ e, heap.lookup i = some e ∧ e.accepting = false) :
    Chronicle R heap calls nextCall tasks broker'
      (log ++ (broker'.events.drop broker.events.length).map .broker) := by
  have hdrop : broker'.events.drop broker.events.length = events := by
    rw [hevents, drop_left]
  rw [hdrop]
  have hnew : ∀ x ∈ events.map RegistryEvent.broker, ∃ y, x = .broker y := by
    intro x hx
    obtain ⟨y, -, rfl⟩ := mem_map.1 hx
    exact ⟨y, rfl⟩
  have hold : ∀ x, (∀ y, x ≠ RegistryEvent.broker y) → x ∈ log ++ events.map .broker → x ∈ log := by
    intro x hne hx
    refine (mem_append.1 hx).resolve_right ?_
    intro hx
    obtain ⟨y, rfl⟩ := hnew x hx
    exact hne y rfl
  exact {
    protocol := hinv
    projected := by
      rw [filterMap_append, h.projected, hevents, filterMap_map_broker]
    lawful := lawful_append_broker h.lawful
    retired := by
      intro i hi
      rw [hevents] at hi
      rcases mem_append.1 hi with hi | hi
      · exact h.retired i hi
      · exact hretired i hi
    retiring := by
      intro k i stage hk hs
      rw [hevents]
      exact mem_append_left _ (h.retiring k i stage hk hs)
    drained := by
      rintro i ⟨x, hx, status, hs, hi⟩
      refine h.drained i ⟨x, hold x ?_ hx, status, hs, hi⟩
      rintro y rfl
      cases hs
    passed := by
      intro call i hmem
      exact (h.passed call i (hold _ nofun hmem)).imp_left (mem_append_left _)
    dispatching := fun call c hc hs => mem_append_left _ (h.dispatching call c hc hs)
    released := fun call hrel => h.released call (hold _ nofun hrel) }

theorem Chronicle.quietBroker (h : Chronicle R heap calls nextCall tasks broker log)
    (hinv : HostRequestBroker.Inv R.broker broker') (hevents : broker'.events = broker.events) :
    Chronicle R heap calls nextCall tasks broker' log := { h with
  protocol := hinv
  projected := by rw [h.projected, hevents]
  retired := by
    rw [hevents]
    exact h.retired
  retiring := by
    rw [hevents]
    exact h.retiring }

end

end CapabilityRegistry

/-! ## Steps of the broker -/

namespace HostRequestBroker
variable {B : HostRequestBroker} {w : BrokerWorld}

theorem act_retired (s : BrokerState) (gates : EntryGates) (a : Answers) (action : Action)
    (id : String) : .retired id ∉ (B.act s gates a action).events := by
  cases action with
  | maintain => simp [act]
  | drive id' =>
    simp only [act, driveCompletion]
    repeat' split
    all_goals simp
  | settle id' prepared outcome =>
    simp only [act, settle, restore]
    repeat' split
    all_goals simp
  | observe id' =>
    simp only [act, observe]
    repeat' split
    all_goals simp
  | cancel id' error tolerant =>
    simp only [act, cancel]
    repeat' split
    all_goals simp
  | publish id' outcome =>
    simp only [act]
    split
    all_goals simp
  | accept id' outcome =>
    simp only [act, accept]
    repeat' split
    all_goals simp
  | retain id' prepared outcome =>
    simp only [act, restore]
    split
    all_goals simp
  | taking limit =>
    simp only [act, taking]
    repeat' split
    all_goals simp
  | scan registrationId => simp [act]
  | abandon id' =>
    simp only [act, abandon]
    repeat' split
    all_goals simp
  | close => simp [act]

theorem Inv.closeGate (I : Inv B w) (id : String) :
    Inv B { w with
      gates.closed := id :: w.gates.closed
      events := w.events ++ [.retired id] } := by
  refine Quiet.inv I ⟨⟨_, rfl⟩, rfl, ?_, ?_, ?_, .refl _, fun _ hx => .inl hx⟩
  · exact fun e he => .inr ⟨_, mem_singleton.1 he⟩
  · exact fun h => I.log.closed ((mem_append.1 h).resolve_right (by simp))
  · intro k hk
    rcases mem_append.1 hk with hk | hk
    · exact mem_cons_of_mem _ (I.log.retired k hk)
    · cases mem_singleton.1 hk
      exact mem_cons_self

/-- `retire_registration` starts. -/
theorem Inv.scanning (I : Inv B w) (id : String) :
    Inv B { w with threads := w.threads ++ [[.scan id]] } := by
  have hfree : ∀ a ∈ [Action.scan id], a.owner? = none := by simp [Action.owner?]
  exact Quiet.inv I ⟨⟨_, rfl⟩, (append_nil _).symm, by rintro _ ⟨⟩, I.log.closed, I.log.retired,
    .of_eq (owners_append_free hfree), mem_append_free hfree⟩

/-- A step of the broker adds events, and none retires a registration. -/
theorem perform_events (step : BrokerStep) (hstep : ∀ id, step ≠ .unregister id) :
    ∃ events, (B.perform w step).events = w.events ++ events ∧ ∀ id, .retired id ∉ events := by
  cases step with
  | submit prepared a =>
    simp only [perform]
    split
    · exact ⟨[], (append_nil _).symm, fun _ => not_mem_nil⟩
    · exact ⟨_, rfl, fun _ => by simp⟩
  | call call => exact ⟨[], (append_nil _).symm, fun _ => not_mem_nil⟩
  | turn t a =>
    simp only [perform, turn]
    split
    · exact ⟨_, rfl, act_retired _ _ _ _⟩
    · exact ⟨[], (append_nil _).symm, fun _ => not_mem_nil⟩
  | unregister id => exact absurd rfl (hstep id)
  | finalizationOnly id => exact ⟨[], (append_nil _).symm, fun _ => not_mem_nil⟩

end HostRequestBroker

end LuaSkills.Embedded
