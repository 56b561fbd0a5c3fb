import LuaSkills.Embedded.Registry.Chronicle

/-!
# Runs of the registry

Every move keeps the books and the log, so every interleaving of sections does. Two results follow:
the accounts and gates of any reachable state, and the order of revocation and dispatch in any run.
-/

namespace LuaSkills.Embedded

open AList List

variable {before after : List RegistryEvent} {status : CapabilityRegistrationStatus}

namespace CapabilityRegistry

structure Inv (R : CapabilityRegistry) (w : RegistryWorld) : Prop where
  accounts : Accounts R w.heap w.calls w.running w.nextCall w.underflowed
  callbacks : Callbacks w.heap w.tasks w.nextTask
  gates : Gates R w.registry w.heap w.tasks w.log
  chronicle : Chronicle R w.heap w.calls w.nextCall w.tasks w.broker w.log

section
variable {R : CapabilityRegistry} {w w' : RegistryWorld} {id : String} {e : EntryState}

theorem shutdownBegun_mem {log : List RegistryEvent} {event : RegistryEvent}
    (hne : .shutdownBegun ≠ event) (h : .shutdownBegun ∈ log ++ [event]) : .shutdownBegun ∈ log := by
  refine (mem_append.1 h).resolve_right ?_
  simpa using hne

theorem not_shutdownBegun_broker {events : List BrokerEvent}
    (h : .shutdownBegun ∈ log ++ events.map RegistryEvent.broker) : .shutdownBegun ∈ log := by
  refine (mem_append.1 h).resolve_right ?_
  simp

theorem Inv.fresh (h : Inv R w) :
    IdentityKind.capability.render R.runtimeId (w.registry.sequence + 1) ∉ w.heap := by
  intro hmem
  obtain ⟨n, hn, heq⟩ := h.gates.numbered _ hmem
  have := IdentityKind.render_injective _ _ heq
  omega

theorem Inv.published (h : Inv R w) (hopen : w.registry.closing = false)
    (request : CapabilityRegistrationRequest) : Inv R (R.publish w request) where
  accounts := h.accounts.publish h.fresh rfl
  callbacks := h.callbacks.publish h.fresh rfl
  gates := h.gates.publish hopen rfl
  chronicle := h.chronicle.withHeap (Persists.publish h.fresh)

theorem Inv.reported (h : Inv R w) (he : w.heap.lookup id = some e) :
    Inv R (w.record (.reported (e.status id))) := { h with
  gates := h.gates.narrows .refl (fun j _ hj => ⟨j, hj⟩) (shutdownBegun_mem nofun)
  chronicle := by
    refine h.chronicle.record rfl trivial ?_ nofun nofun
    rintro _ ⟨⟩ hd
    exact ⟨e, he, hd⟩ }

theorem Inv.opened {registry : RegistryState} {t : RegistryTask} (h : Inv R w)
    (hseq : w.registry.sequence ≤ registry.sequence)
    (hentries : registry.entries = w.registry.entries)
    (hclosing : w.registry.closing = true → registry.closing = true) (hnone : t.destroys = none)
    (ht : (∃ id, t = .unregister id .closing) ∨ registry.closing = true ∧
      (t = .beginShutdown w.registry.entries ∨ ∃ ids thread, t = .closeBroker ids thread)) :
    Inv R ({ w with registry }.spawn t) where
  accounts := h.accounts
  callbacks := h.callbacks.spawn hnone
  gates := by
    refine h.gates.open hseq hentries hclosing ?_
    rintro ids rfl
    rcases ht with ⟨_, heq⟩ | ⟨hc, heq | ⟨_, _, heq⟩⟩
    · cases heq
    · exact ⟨hc, RegistryTask.beginShutdown.inj heq⟩
    · cases heq
  chronicle := by
    refine h.chronicle.withTasks ?_
    intro k i stage hk hs
    change (w.tasks.insert w.nextTask t).lookup k = _ at hk
    rcases lookup_of_insert hk with ⟨-, rfl⟩ | ⟨-, hk⟩
    · rcases ht with ⟨_, heq⟩ | ⟨-, heq | ⟨_, _, heq⟩⟩
      · cases heq
        exact absurd rfl hs
      · cases heq
      · cases heq
    · exact h.chronicle.retiring k i stage hk hs

theorem Inv.forgotten (h : Inv R w) (he : w.heap.lookup id = some e) (hd : e.drained = true) :
    Inv R { w with
      registry := { w.registry with entries := w.registry.entries.filter (· ≠ id) } } := { h with
  gates := h.gates.forget he hd }

/-- An open gate: the registration was not retired and its callback is not being destroyed. -/
theorem opensFor_iff : e.opensFor finalization = true ↔
    e.accepting = true ∧ (e.finalizationOnly = true → finalization = true) := by
  cases hf : e.finalizationOnly <;> cases finalization <;> simp [EntryState.opensFor, hf]

theorem Inv.not_retired (h : Inv R w) (he : w.heap.lookup id = some e) (hacc : e.accepting = true) :
    .broker (.retired id) ∉ w.log := by
  intro hmem
  obtain ⟨x, hx, hclosed⟩ := h.chronicle.retired id (h.chronicle.retired_mem.2 hmem)
  rw [he] at hx
  cases hx
  rw [hacc] at hclosed
  cases hclosed

theorem Inv.admitted {finalization : Bool} (h : Inv R w) (he : w.heap.lookup id = some e)
    (hok : R.admitEntry w id e finalization = .ok w') : Inv R w' := by
  simp only [admitEntry, Except.bind_eq_ok, refuseIf_eq_ok, not_or, not_le] at hok
  obtain ⟨-, hopen, -, ⟨hlimit, hconcurrent⟩, hok⟩ := hok
  cases hok
  have hopen : e.opensFor finalization = true := by simpa using hopen
  obtain ⟨hacc, hfin⟩ := opensFor_iff.1 hopen
  have hdrained : e.drained = false := by simp [EntryState.drained, hacc]
  have hheap : Persists w.heap (w.heap.insert id { e with running := e.running + 1 }) := by
    refine Persists.setEntry he (fun hc => hc) ?_
    rw [hdrained]
    rintro ⟨⟩
  exact {
    accounts := h.accounts.admitEntry he rfl hlimit hconcurrent
    callbacks := by
      refine h.callbacks.setEntry he rfl ?_
      intro hrel
      have := (h.callbacks.releasing id e he hrel).1
      rw [hacc] at this
      cases this
    gates := h.gates.narrows (Narrows.setEntry he (fun hc => hc) (fun hc => hc))
      (fun j _ hj => ⟨j, hj⟩) (shutdownBegun_mem (by rintro ⟨⟩))
    chronicle := by
      have hnew : w.nextCall ∉ w.calls := by
        intro hmem
        obtain ⟨x, hx⟩ := mem_iff_lookup.1 hmem
        exact absurd (h.accounts.numbered _ x hx) (lt_irrefl _)
      have hold := (h.chronicle.withHeap hheap).addCall hnew (c := {
        entryId := id
        finalization := finalization
        native := e.native
        stage := .admitted }) (by rintro ⟨⟩)
      refine hold.record rfl ?_ (by rintro _ ⟨⟩) (by rintro _ _ ⟨⟩) (by rintro _ ⟨⟩)
      refine ⟨h.not_retired he hacc, ?_, ?_⟩
      · intro hsaid
        obtain ⟨x, hx, hd⟩ := h.chronicle.drained id hsaid
        rw [he] at hx
        cases hx
        rw [hdrained] at hd
        cases hd
      · intro hmem
        rcases (h.gates.shut hmem).2 id e he with hc | hc
        · rw [hacc] at hc
          cases hc
        · exact hfin hc }

/-! ## Calls -/

section
variable {k : ℕ} {c : AdmittedCall}

/-- A call moves to a stage that is not its dispatch. -/
theorem Inv.staged (h : Inv R w) (hc : w.calls.lookup k = some c) (hstage : stage ≠ .dispatching) :
    Inv R (toStage w k c stage) := { h with
  accounts := h.accounts.setCall hc rfl
  chronicle := h.chronicle.setCall hc rfl fun hs => absurd hs hstage }

theorem Inv.passed (h : Inv R w) (hc : w.calls.lookup k = some c)
    (he : w.heap.lookup c.entryId = some e) (hopen : e.opensFor c.finalization = true) :
    Inv R ((toStage w k c .dispatching).record (.passedGate k c.entryId)) where
  accounts := h.accounts.setCall hc rfl
  callbacks := h.callbacks
  gates := h.gates.narrows .refl (fun j _ hj => ⟨j, hj⟩) (shutdownBegun_mem nofun)
  chronicle := by
    have hlawful : Lawful w.log (.passedGate k c.entryId) :=
      h.not_retired he (opensFor_iff.1 hopen).1
    have hrecorded := h.chronicle.record rfl hlawful nofun ?_ nofun
    · refine hrecorded.setCall hc rfl ?_
      simp
    · rintro _ _ ⟨⟩
      exact ⟨c, hc, rfl⟩

theorem Inv.started (h : Inv R w) (hc : w.calls.lookup k = some c) (hstage : c.stage = .dispatching) :
    Inv R ((toStage w k c .calling).record (.started k c.entryId)) where
  accounts := h.accounts.setCall hc rfl
  callbacks := h.callbacks
  gates := h.gates.narrows .refl (fun j _ hj => ⟨j, hj⟩) (shutdownBegun_mem nofun)
  chronicle := by
    have hlawful : Lawful w.log (.started k c.entryId) := by
      refine ⟨h.chronicle.dispatching k c hc hstage, ?_⟩
      intro hrel
      exact (h.chronicle.released k hrel).1 (mem_of_lookup hc)
    have hrecorded := h.chronicle.record rfl hlawful nofun nofun nofun
    refine hrecorded.setCall hc rfl ?_
    exact nofun

/-- The broker takes a step, and no registration retires. -/
theorem Inv.brokered {step : BrokerStep} (h : Inv R w) (hstep : ∀ id, step ≠ .unregister id) :
    Inv R (w.withBroker (R.broker.perform w.broker step)) := { h with
  gates := h.gates.narrows .refl (fun j _ hj => ⟨j, hj⟩) not_shutdownBegun_broker
  chronicle := by
    obtain ⟨events, hevents, hretired⟩ := HostRequestBroker.perform_events (B := R.broker)
      (w := w.broker) step hstep
    refine h.chronicle.withBroker _ events (h.chronicle.protocol.perform step) hevents ?_
    intro i hi
    exact absurd hi (hretired i) }

theorem Inv.dropped (h : Inv R w) (hc : w.calls.lookup k = some c)
    (he : w.heap.lookup c.entryId = some e) : Inv R (dropPermit w k c e) := by
  have hrunning : 0 < e.running := by
    rw [h.accounts.counts _ e he]
    exact countBy_pos_of_lookup hc (by simp [ofEntry])
  have hnew : w.nextTask ∉ w.tasks := by
    intro hmem
    obtain ⟨x, hx⟩ := mem_iff_lookup.1 hmem
    exact absurd (h.callbacks.numbered _ x hx) (lt_irrefl _)
  have hdrained : e.drained = false := by
    by_contra hd
    have := (drained_iff.1 (by simpa using hd)).2.1
    omega
  have hpersists : Persists w.heap
      (w.heap.insert c.entryId { e with running := e.running - 1 }.retire) := by
    refine Persists.setEntry he ?_ ?_
    · rw [retire_accepting]
      exact fun hacc => hacc
    · rw [hdrained]
      rintro ⟨⟩
  have haccounts : Accounts R (w.heap.insert c.entryId { e with running := e.running - 1 }.retire)
      (w.calls.erase k) (w.running - 1) w.nextCall
      (w.underflowed || w.running = 0 || e.running = 0) :=
    h.accounts.drop hc he retire_running retire_descriptor
  have hnarrows : Narrows w.heap
      (w.heap.insert c.entryId { e with running := e.running - 1 }.retire) := by
    refine Narrows.setEntry he ?_ ?_
    · rw [retire_accepting]
      exact fun hacc => hacc
    · rw [retire_finalizationOnly]
      exact fun hfin => hfin
  have hchronicle := (h.chronicle.withHeap hpersists).dropCall hc (h.accounts.numbered k c hc)
  unfold dropPermit
  by_cases hretires : EntryState.retires { e with running := e.running - 1 } = true
  · simp only [hretires, if_true]
    have hlookup : ∀ j x, (w.tasks.insert w.nextTask (.dropNative c.entryId)).lookup j = some x →
        j = w.nextTask ∧ x = .dropNative c.entryId ∨ w.tasks.lookup j = some x := by
      intro j x hx
      rcases lookup_of_insert hx with ⟨hj, rfl⟩ | ⟨-, hx⟩
      · exact .inl ⟨hj, rfl⟩
      · exact .inr hx
    have hcount : ∀ i, (w.tasks.insert w.nextTask (.dropNative c.entryId)).countBy (destroysOf i) =
        w.tasks.countBy (destroysOf i) +
          if EntryState.retires { e with running := e.running - 1 } = true ∧ i = c.entryId then 1
          else 0 := by
      intro i
      rw [countBy_insert_of_notMem hnew, hretires]
      simp [destroysOf, RegistryTask.destroys, eq_comm]
    exact {
      accounts := haccounts
      callbacks := by
        refine h.callbacks.retire he rfl rfl (.inr rfl) (Nat.sub_le _ _) hcount ?_ ?_
        · intro j x i hx hi
          rcases hlookup j x hx with ⟨-, rfl⟩ | hx
          · cases hi
            exact .inl rfl
          · exact .inr ⟨j, x, hx, hi⟩
        · intro j x hx
          rcases hlookup j x hx with ⟨rfl, -⟩ | hx
          · exact Nat.lt_succ_self _
          · exact (h.callbacks.numbered j x hx).trans (Nat.lt_succ_self _)
      gates := by
        refine h.gates.narrows hnarrows ?_ (shutdownBegun_mem (by rintro ⟨⟩))
        intro j ids hj
        rcases hlookup j _ hj with ⟨-, heq⟩ | hj
        · cases heq
        · exact ⟨j, hj⟩
      chronicle := by
        refine hchronicle.withTasks ?_
        intro j i stage hj hs
        rcases hlookup j _ hj with ⟨-, heq⟩ | hj
        · cases heq
        · exact h.chronicle.retiring j i stage hj hs }
  · simp only [hretires]
    have hcount : ∀ i, w.tasks.countBy (destroysOf i) = w.tasks.countBy (destroysOf i) +
        if EntryState.retires { e with running := e.running - 1 } = true ∧ i = c.entryId then 1
        else 0 := by
      intro i
      simp [hretires]
    exact {
      accounts := haccounts
      callbacks := by
        refine h.callbacks.retire he rfl rfl (.inr rfl) (Nat.sub_le _ _) hcount
          (fun j x i hx hi => .inr ⟨j, x, hx, hi⟩) h.callbacks.numbered
      gates := h.gates.narrows hnarrows (fun j _ hj => ⟨j, hj⟩) (shutdownBegun_mem (by rintro ⟨⟩))
      chronicle := hchronicle }

end

/-! ## Tasks -/

section
variable {k : ℕ} {t : RegistryTask}

theorem Inv.retasked (h : Inv R w) (ht : w.tasks.lookup k = some t) (hnone : t.destroys = none)
    (hnone' : ∀ x, t' = some x → x.destroys = none)
    (hpoll : ∀ x, t' = some x → ∃ ids releasing drained, x = .closeAndPoll ids releasing drained) :
    Inv R { w with tasks := setTask w.tasks k t' } where
  accounts := h.accounts
  callbacks := h.callbacks.retask t' ht hnone hnone'
  gates := by
    refine h.gates.narrows .refl ?_ (fun hmem => hmem)
    intro j ids hj
    rcases lookup_setTask _ hj with ⟨heq, -⟩ | hj
    · obtain ⟨_, _, _, hx⟩ := hpoll _ heq
      cases hx
    · exact ⟨j, hj⟩
  chronicle := by
    refine h.chronicle.withTasks ?_
    intro j i stage hj hs
    rcases lookup_setTask _ hj with ⟨heq, -⟩ | hj
    · obtain ⟨_, _, _, hx⟩ := hpoll _ heq
      cases hx
    · exact h.chronicle.retiring j i stage hj hs

/-- The gate of a registration closes for its calls and for the broker. -/
theorem Inv.closed {t' : RegistryTask} (h : Inv R w) (ht : w.tasks.lookup k = some t)
    (hnone : t.destroys = none) (he : w.heap.lookup id = some e)
    (hdestroys : t'.destroys =
      if EntryState.retires { e with accepting := false } then some id else none)
    (hkind : (∃ stage, stage ≠ .closing ∧ t' = .unregister id stage) ∨
      ∃ ids releasing drained, t' = .closeAndPoll ids releasing drained) :
    Inv R { w.closeEntry id e with tasks := w.tasks.insert k t' } := by
  have hclosed : e.close.accepting = false := retire_accepting
  have hlookup : ∀ j x, (w.tasks.insert k t').lookup j = some x →
      j = k ∧ x = t' ∨ w.tasks.lookup j = some x := by
    intro j x hx
    rcases lookup_of_insert hx with ⟨hj, rfl⟩ | ⟨-, hx⟩
    · exact .inl ⟨hj, rfl⟩
    · exact .inr hx
  have hpersists : Persists w.heap (w.heap.insert id e.close) := by
    refine Persists.setEntry he (fun _ => hclosed) ?_
    intro hd
    obtain ⟨hacc, hrun, hnative, hrel⟩ := drained_iff.1 hd
    have hretires : EntryState.retires { e with accepting := false } = false := by
      simp [EntryState.retires, hnative]
    have hclose : e.close = { e with accepting := false } := by
      unfold EntryState.close EntryState.retire
      rw [hretires]
      rfl
    rw [hclose]
    exact drained_iff.2 ⟨rfl, hrun, hnative, hrel⟩
  have hheap : ∃ e', (w.heap.insert id e.close).lookup id = some e' ∧ e'.accepting = false :=
    ⟨e.close, lookup_insert _, hclosed⟩
  exact {
    accounts := h.accounts.setEntry he retire_running retire_descriptor
    callbacks := by
      refine h.callbacks.retire he rfl rfl (.inl rfl) le_rfl ?_ ?_ ?_
      · intro i
        rw [countBy_insert, countBy_of_lookup ht]
        by_cases hr : EntryState.retires { e with accepting := false } = true
        · simp [destroysOf, hdestroys, hnone, hr, eq_comm]
        · simp [destroysOf, hdestroys, hnone, hr]
      · intro j x i hx hi
        rcases hlookup j x hx with ⟨-, rfl⟩ | hx
        · rw [hdestroys] at hi
          split at hi
          · exact .inl (Option.some.inj hi).symm
          · cases hi
        · exact .inr ⟨j, x, hx, hi⟩
      · intro j x hx
        rcases hlookup j x hx with ⟨rfl, -⟩ | hx
        · exact h.callbacks.numbered j t ht
        · exact h.callbacks.numbered j x hx
    gates := by
      refine h.gates.narrows (Narrows.setEntry he (fun _ => hclosed) ?_) ?_ not_shutdownBegun_broker
      · intro hfin
        exact retire_finalizationOnly.trans hfin
      · intro j ids hj
        rcases hlookup j _ hj with ⟨-, rfl⟩ | hj
        · rcases hkind with ⟨_, -, hx⟩ | ⟨_, _, _, hx⟩
          · cases hx
          · cases hx
        · exact ⟨j, hj⟩
    chronicle := by
      have hgate := (h.chronicle.withHeap hpersists).withBroker { w.broker with
          gates.closed := id :: w.broker.gates.closed
          events := w.broker.events ++ [.retired id] } [.retired id]
        (h.chronicle.protocol.closeGate id) rfl ?_
      · refine hgate.withTasks ?_
        intro j i stage hj hs
        rcases hlookup j _ hj with ⟨-, rfl⟩ | hj
        · rcases hkind with ⟨_, -, hx⟩ | ⟨_, _, _, hx⟩
          · cases hx
            simp
          · cases hx
        · exact mem_append_left _ (h.chronicle.retiring j i stage hj hs)
      · intro i hi
        cases mem_singleton.1 hi
        exact hheap }

theorem Inv.released (h : Inv R w) (ht : w.tasks.lookup k = some t) (hid : t.destroys = some id)
    (hnone' : ∀ x, t' = some x → x.destroys = none) (hkind : ∀ x, t' = some x →
      (t = .unregister id .releasing ∧ x = .unregister id .retiring) ∨
        ∃ ids releasing drained, x = .closeAndPoll ids releasing drained) :
    Inv R { w.endRelease id with tasks := setTask w.tasks k t' } := by
  obtain ⟨e, he⟩ := mem_iff_lookup.1 (h.callbacks.known k t id ht hid)
  have hcallbacks := h.callbacks.release ht hid hnone'
  have hheap : (w.heap.adjust id fun e => { e with releasing := false }) =
      w.heap.insert id { e with releasing := false } := adjust_of_lookup he
  have hpersists : Persists w.heap (w.heap.insert id { e with releasing := false }) := by
    refine Persists.setEntry he (fun hacc => hacc) ?_
    intro hd
    obtain ⟨hacc, hrun, hnative, -⟩ := drained_iff.1 hd
    exact drained_iff.2 ⟨hacc, hrun, hnative, rfl⟩
  refine ⟨?_, hcallbacks, ?_, ?_⟩
  · change Accounts R (w.heap.adjust id _) _ _ _ _
    rw [hheap]
    exact h.accounts.setEntry he rfl rfl
  · change Gates R _ (w.heap.adjust id _) _ _
    rw [hheap]
    refine h.gates.narrows (Narrows.setEntry he (fun hacc => hacc) (fun hfin => hfin)) ?_
      (fun hmem => hmem)
    intro j ids hj
    rcases lookup_setTask _ hj with ⟨heq, -⟩ | hj
    · rcases hkind _ heq with ⟨-, hx⟩ | ⟨_, _, _, hx⟩
      · cases hx
      · cases hx
    · exact ⟨j, hj⟩
  · change Chronicle R (w.heap.adjust id _) _ _ _ _ _
    rw [hheap]
    refine (h.chronicle.withHeap hpersists).withTasks ?_
    intro j i stage hj hs
    rcases lookup_setTask _ hj with ⟨heq, -⟩ | hj
    · rcases hkind _ heq with ⟨rfl, hx⟩ | ⟨_, _, _, hx⟩
      · cases hx
        exact h.chronicle.retiring k id .releasing ht nofun
      · cases hx
    · exact h.chronicle.retiring j i stage hj hs

theorem Inv.scanned (h : Inv R w) (ht : w.tasks.lookup k = some (.unregister id .retiring)) :
    Inv R { w with
      broker := { w.broker with threads := w.broker.threads ++ [[.scan id]] }
      tasks := w.tasks.insert k (.unregister id (.scanning w.broker.threads.length)) } where
  accounts := h.accounts
  callbacks := h.callbacks.retask (some _) ht rfl (by rintro _ ⟨⟩; rfl)
  gates := by
    refine h.gates.narrows .refl ?_ (fun hmem => hmem)
    intro j ids hj
    rw [lookup_insert_eq] at hj
    split at hj
    · cases hj
    · exact ⟨j, hj⟩
  chronicle := by
    refine (h.chronicle.quietBroker (h.chronicle.protocol.scanning id) rfl).withTasks ?_
    intro j i stage hj hs
    rcases lookup_of_insert hj with ⟨-, ⟨⟩⟩ | ⟨-, hj⟩
    · exact h.chronicle.retiring k id .retiring ht nofun
    · exact h.chronicle.retiring j i stage hj hs

theorem Inv.unregistered {thread : ℕ} (h : Inv R w)
    (ht : w.tasks.lookup k = some (.unregister id (.scanning thread)))
    (he : w.heap.lookup id = some e) :
    Inv R ({ w with tasks := w.tasks.erase k }.record (.unregistered (e.status id))) where
  accounts := h.accounts
  callbacks := h.callbacks.retask none ht rfl nofun
  gates := by
    refine h.gates.narrows .refl ?_ (shutdownBegun_mem nofun)
    intro j ids hj
    exact ⟨j, (lookup_setTask none hj).resolve_left nofun⟩
  chronicle := by
    have htasks : Chronicle R w.heap w.calls w.nextCall (w.tasks.erase k) w.broker w.log := by
      refine h.chronicle.withTasks ?_
      intro j i stage hj hs
      exact h.chronicle.retiring j i stage ((lookup_setTask none hj).resolve_left nofun) hs
    refine htasks.record rfl ?_ ?_ nofun nofun
    · refine ⟨h.chronicle.retired_mem.1 (h.chronicle.retiring k id _ ht nofun), ?_, ?_⟩
      · -- a call that passed the gate and was not released is one of the handlers in flight
        intro hzero call hpassed
        rcases h.chronicle.passed call _ hpassed with hrel | ⟨c, hc, hentry⟩
        · exact hrel
        · have hpos := countBy_pos_of_lookup (p := ofEntry id) hc (decide_eq_true hentry)
          rw [← h.accounts.counts id e he] at hpos
          exact absurd hzero (Nat.pos_iff_ne_zero.1 hpos)
      · intro hd
        exact (drained_iff.1 hd).2.1
    · rintro _ ⟨⟩ hd
      exact ⟨e, he, hd⟩

theorem Inv.narrowed (h : Inv R w) (ht : w.tasks.lookup k = some (.beginShutdown (id :: ids)))
    (he : w.heap.lookup id = some e) : Inv R { w with
      heap := w.heap.insert id { e with finalizationOnly := true }
      broker := { w.broker with gates.finalizationOnly := id :: w.broker.gates.finalizationOnly }
      tasks := w.tasks.insert k (.beginShutdown ids) } where
  accounts := h.accounts.setEntry he rfl rfl
  callbacks :=
    (h.callbacks.retask (some _) ht rfl (by rintro _ ⟨⟩; rfl)).setEntry he rfl
      (h.callbacks.releasing id e he)
  gates := h.gates.narrowOne ht he
  chronicle := by
    have hheap : Persists w.heap (w.heap.insert id { e with finalizationOnly := true }) :=
      Persists.setEntry he (fun hacc => hacc) (fun hd => hd)
    refine ((h.chronicle.withHeap hheap).quietBroker
      (h.chronicle.protocol.perform (.finalizationOnly id)) rfl).withTasks ?_
    intro j i stage hj hs
    rw [lookup_insert_eq] at hj
    split at hj
    · cases hj
    · exact h.chronicle.retiring j i stage hj hs

theorem Inv.shutDown (h : Inv R w) (ht : w.tasks.lookup k = some (.beginShutdown [])) :
    Inv R ({ w with tasks := w.tasks.erase k }.record .shutdownBegun) where
  accounts := h.accounts
  callbacks := h.callbacks.retask none ht rfl nofun
  gates := h.gates.shutDown ht
  chronicle := by
    have htasks : Chronicle R w.heap w.calls w.nextCall (w.tasks.erase k) w.broker w.log := by
      refine h.chronicle.withTasks ?_
      intro j i stage hj hs
      exact h.chronicle.retiring j i stage ((lookup_setTask none hj).resolve_left nofun) hs
    exact htasks.record rfl trivial nofun nofun nofun

end

theorem Inv.move (h : Inv R w) (hmove : R.Move w w') : Inv R w' := by
  cases hmove with
  | published hopen => exact h.published hopen _
  | reported he => exact h.reported he
  | opened registry hseq hentries hclosing hnone ht =>
    exact h.opened hseq hentries hclosing hnone ht
  | forgotten he hd => exact h.forgotten he hd
  | admitted he hok => exact h.admitted he hok
  | left hc => exact h.staged hc nofun
  | passed hc he hopen => exact h.passed hc he hopen
  | started hc hs => exact h.started hc hs
  | submitted hc hs => exact (h.staged hc hs).brokered fun _ heq => nomatch heq
  | dropped hc he hs => exact h.dropped hc he
  | brokered step hstep => exact h.brokered hstep
  | retasked t' ht hnone hnone' hpoll => exact h.retasked ht hnone hnone' hpoll
  | closed ht hnone he hdestroys hkind => exact h.closed ht hnone he hdestroys hkind
  | released t' ht hid hnone' hkind => exact h.released ht hid hnone' hkind
  | scanned ht => exact h.scanned ht
  | unregistered ht he => exact h.unregistered ht he
  | narrowed ht he => exact h.narrowed ht he
  | shutDown ht => exact h.shutDown ht

theorem Inv.new : Inv R .new where
  accounts := {
    counts := nofun
    total := rfl
    owned := nofun
    limit := Nat.zero_le _
    concurrent := nofun
    numbered := nofun
    solvent := rfl }
  callbacks := {
    destroyed := nofun
    releasing := nofun
    known := nofun
    numbered := nofun }
  gates := {
    numbered := by
      intro id hid
      exact absurd hid (notMem_empty id)
    forgotten := nofun
    shutting := nofun
    shut := nofun }
  chronicle := {
    protocol := HostRequestBroker.Inv.new
    projected := rfl
    lawful := .nil
    retired := nofun
    retiring := nofun
    drained := by
      rintro id ⟨_, hmem, -⟩
      cases hmem
    passed := nofun
    dispatching := nofun
    released := nofun }

theorem Inv.moves (h : Inv R w) (hmoves : R.Moves w w') : Inv R w' := by
  induction hmoves with
  | refl => exact h
  | tail _ hmove ih => exact ih.move hmove

theorem Inv.run (h : Inv R w) (hrun : R.run w acts = some w') : Inv R w' := by
  induction acts generalizing w with
  | nil =>
    cases hrun
    exact h
  | cons a acts ih =>
    obtain ⟨mid, hstep, hrun⟩ := Option.bind_eq_some_iff.1 hrun
    exact ih (h.moves (step_moves hstep)) hrun

/-! ## The order of events -/

/-- After a status said drained, the registration admits nothing. -/
theorem Inv.not_admitted_after {event : RegistryEvent}
    (h : Inv R w) (hlog : w.log = before ++ event :: after)
    (hs : event.status? = some status) (hd : status.drained = true) (call : ℕ) (finalization : Bool) :
    .admitted call status.registrationId finalization ∉ after := by
  intro hmem
  obtain ⟨between, rest, rfl⟩ := append_of_mem hmem
  have hlawful := h.chronicle.lawful (before ++ event :: between) _ rest (by simpa using hlog)
  exact hlawful.2.1 ⟨event, by simp, status, hs, rfl, hd⟩

/-- After `unregister` returned, the broker hands no request of the registration over. -/
theorem Inv.not_delivered_after (h : Inv R w) (hlog : w.log = before ++ .unregistered status :: after)
    (hmem : .broker (.delivered request) ∈ after) : request.registrationId ≠ status.registrationId := by
  obtain ⟨between, rest, rfl⟩ := append_of_mem hmem
  have hretired := (h.chronicle.lawful before _ _ hlog).1
  have hprojected := h.chronicle.projected
  rw [hlog] at hprojected
  simp only [filterMap_append, filterMap_cons, RegistryEvent.broker?] at hprojected
  have hlegal := h.chronicle.protocol.log.legal
    (before.filterMap RegistryEvent.broker? ++ between.filterMap RegistryEvent.broker?)
    (.delivered request) _ (by rw [← hprojected, append_assoc])
  intro heq
  apply hlegal.2.2.2.1
  rw [heq]
  exact mem_append_left _ (mem_projected.2 hretired)

/-- After `unregister` returned, a callback starts only if its call had passed the gate before the gate
closed, which the log says by the retirement; the returned status counted that call. -/
theorem Inv.started_after (h : Inv R w) (hlog : w.log = before ++ .unregistered status :: after)
    (hmem : .started call status.registrationId ∈ after) :
    (∃ opened closed, before = opened ++ .broker (.retired status.registrationId) :: closed ∧
      .passedGate call status.registrationId ∈ opened) ∧ 0 < status.inFlight ∧
      status.drained = false := by
  obtain ⟨between, rest, rfl⟩ := append_of_mem hmem
  obtain ⟨hretired, hflight, hzero⟩ := h.chronicle.lawful before _ _ hlog
  obtain ⟨hpassed, hreleased⟩ := h.chronicle.lawful (before ++ .unregistered status :: between) _ rest
    (by simpa using hlog)
  obtain ⟨opened, closed, rfl⟩ := append_of_mem hretired
  have hsplit : w.log = opened ++ .broker (.retired status.registrationId) ::
      (closed ++ .unregistered status :: between) ++ .started call status.registrationId :: rest := by
    simpa using hlog
  have hopened : .passedGate call status.registrationId ∈ opened := by
    rw [append_assoc, cons_append] at hpassed
    rcases mem_append.1 hpassed with hmem | hmem
    · exact hmem
    · -- a gate passed after the retirement is not lawful
      obtain ⟨first, last, heq⟩ := append_of_mem ((mem_cons.1 hmem).resolve_left nofun)
      rw [heq] at hsplit
      have hlawful := h.chronicle.lawful
        (opened ++ .broker (.retired status.registrationId) :: first)
        (.passedGate call status.registrationId) _ (by simpa using hsplit)
      exact absurd (mem_append_right _ mem_cons_self) hlawful
  have hpos : 0 < status.inFlight := by
    by_contra hcontra
    have hrel := hflight (by omega) call (mem_append_left _ hopened)
    exact hreleased (mem_append_left _ hrel)
  refine ⟨⟨opened, closed, rfl, hopened⟩, hpos, ?_⟩
  by_contra hd
  have := hzero (by simpa using hd)
  omega

end

/-- Admission accounting and revocation, in every state that any interleaving of sections reaches. The
shared counter is the sum of the counters of all registrations, forgotten ones included, and stays
within its limit; every registration stays within its own; no counter is decremented below zero. A
registration that a status said to be drained owns no call, no callback and no running destructor, and
admits nothing later. After `unregister` returned, no request of the registration is handed over, and a
native callback starts only for a call that had passed the dispatch gate before the registration closed,
and that the returned status counted in flight. After `begin_shutdown` returned, only calls of a closing stage are admitted. -/
theorem capability_accounting {R : CapabilityRegistry} {acts : List RegistryAct} {w : RegistryWorld}
    (hrun : R.run .new acts = some w) :
    (w.running = w.heap.sumBy (fun _ e => e.running) ∧ w.running ≤ R.limit ∧
      (∀ id e, w.heap.lookup id = some e → e.running ≤ e.descriptor.maxConcurrent ∧
        e.running = w.calls.countBy fun c => c.entryId = id) ∧ w.underflowed = false) ∧
    (∀ before event after status, w.log = before ++ event :: after → event.status? = some status →
      status.drained = true →
      (∃ e, w.heap.lookup status.registrationId = some e ∧ e.running = 0 ∧ e.native = none) ∧
      (∀ k c, w.calls.lookup k = some c → c.entryId ≠ status.registrationId) ∧
      (∀ k t, w.tasks.lookup k = some t → t.destroys ≠ some status.registrationId) ∧
      ∀ call finalization, .admitted call status.registrationId finalization ∉ after) ∧
    (∀ before status after, w.log = before ++ .unregistered status :: after →
      (∀ request, .broker (.delivered request) ∈ after →
        request.registrationId ≠ status.registrationId) ∧
      ∀ call, .started call status.registrationId ∈ after →
        (∃ opened closed, before = opened ++ .broker (.retired status.registrationId) :: closed ∧
          .passedGate call status.registrationId ∈ opened) ∧ 0 < status.inFlight ∧
          status.drained = false) ∧
    (∀ before after, w.log = before ++ .shutdownBegun :: after →
      ∀ call id finalization, .admitted call id finalization ∈ after → finalization = true) := by
  have h : Inv R w := Inv.new.run hrun
  refine ⟨⟨h.accounts.running_eq_sum, h.accounts.limit, ?_, h.accounts.solvent⟩, ?_, ?_, ?_⟩
  · intro id e he
    exact ⟨h.accounts.concurrent id e he, h.accounts.counts id e he⟩
  · intro before event after status hlog hs hd
    have hsaid : SaidDrained w.log status.registrationId :=
      ⟨event, by rw [hlog]; simp, status, hs, rfl, hd⟩
    obtain ⟨e, he, hdrained⟩ := h.chronicle.drained _ hsaid
    obtain ⟨hnative, hcalls, htasks⟩ := drained_free h.accounts h.callbacks he hdrained
    exact ⟨⟨e, he, (drained_iff.1 hdrained).2.1, hnative⟩, hcalls, htasks,
      h.not_admitted_after hlog hs hd⟩
  · intro before status after hlog
    exact ⟨fun request => h.not_delivered_after hlog, fun call => h.started_after hlog⟩
  · intro before after hlog call id finalization hmem
    obtain ⟨between, rest, rfl⟩ := append_of_mem hmem
    have hlawful := h.chronicle.lawful (before ++ .shutdownBegun :: between) _ rest
      (by simpa using hlog)
    exact hlawful.2.2 (by simp)

/-! ## A revocation during a dispatch -/

/-- A registry of four handlers whose broker accepts every size. -/
def smallRegistry : CapabilityRegistry where
  runtimeId := "r"
  maxRegisteredCapabilities := 4
  limit := 4
  broker := {
    runtimeId := "r"
    maxRecords := 4
    maxBytes := 4096
    requestSize := fun _ => 1
    valueSize := fun _ => 1
    errorSize := fun _ => 1
    schema := fun _ _ => .ok () }

def grantedAnswers : Answers where
  authorize := .ok ()
  prepare := .ok ()
  reauthorize := .ok ()
  checkpoint := .ok true
  confirm := .ok ()
  begin := .ok ()
  bind := .ok ()
  poll := .ok true
  remainingMs := 10

/-- A native call passes its gate, its registration is unregistered, and the callback runs. -/
def revokedActs : List RegistryAct :=
  let id := IdentityKind.capability.render "r" 1
  [.register [{
      descriptor := {
        name := "clock"
        version := "1.0.0"
        execution := .native
        maxConcurrent := 2
        maxOutputBytes := 64 }
      native := some 7 }] (.ok ()),
    .admission id false, .dispatch 0 (.ok ()), .unregister id, .task 0, .task 0, .turn 0 grantedAnswers,
    .task 0, .invoke 0]

/-- What `unregister` returned in that run. -/
def revokedStatus : CapabilityRegistrationStatus where
  registrationId := IdentityKind.capability.render "r" 1
  name := "clock"
  accepting := false
  inFlight := 1
  drained := false

theorem revokedActs_log : (smallRegistry.run .new revokedActs).map RegistryWorld.log = some
    ([.admitted 0 revokedStatus.registrationId false, .passedGate 0 revokedStatus.registrationId,
      .broker (.retired revokedStatus.registrationId)] ++
      .unregistered revokedStatus :: [.started 0 revokedStatus.registrationId]) := rfl

/-- The callback starts after `unregister` returned. -/
theorem started_after_unregister : ∃ w before status after,
    smallRegistry.run .new revokedActs = some w ∧ w.log = before ++ .unregistered status :: after ∧
      .started 0 status.registrationId ∈ after := by
  obtain ⟨w, hrun, hlog⟩ := Option.map_eq_some_iff.1 revokedActs_log
  exact ⟨w, _, revokedStatus, _, hrun, hlog, mem_singleton_self _⟩

theorem capability_accounting_revoked : ∃ w, smallRegistry.run .new revokedActs = some w ∧
    w.running = w.heap.sumBy (fun _ e => e.running) ∧ w.running ≤ 4 ∧ 0 < revokedStatus.inFlight := by
  obtain ⟨w, hrun, hlog⟩ := Option.map_eq_some_iff.1 revokedActs_log
  obtain ⟨⟨hsum, hlimit, -⟩, -, hrevoked, -⟩ := capability_accounting hrun
  exact ⟨w, hrun, hsum, hlimit, ((hrevoked _ _ _ hlog).2 0 (mem_singleton_self _)).2.1⟩

end CapabilityRegistry

end LuaSkills.Embedded
