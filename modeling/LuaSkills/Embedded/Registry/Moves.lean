import LuaSkills.Embedded.Registry.State

/-!
# What one section of the registry can do

`Move` lists what a section changes, with the conditions it checked. A batch of registrations is
several moves; every other section is one move or none.
-/

namespace LuaSkills.Embedded

open Option

/-- The rest of a task after one section, or its end. -/
def setTask (tasks : AssocMap ℕ RegistryTask) (k : ℕ) : Option RegistryTask → AssocMap ℕ RegistryTask
  | some t => tasks.insert k t
  | none => tasks.erase k

namespace CapabilityRegistry
variable (R : CapabilityRegistry)

inductive Move : RegistryWorld → RegistryWorld → Prop
  | published {w : RegistryWorld} {request : CapabilityRegistrationRequest} :
      w.registry.closing = false → Move w (R.publish w request)
  | reported {w : RegistryWorld} {id : String} {e : EntryState} : w.heap.lookup id = some e →
      Move w (w.record (.reported (e.status id)))
  /-- A call of the registry starts. -/
  | opened {w : RegistryWorld} {t : RegistryTask} (registry : RegistryState) :
      w.registry.sequence ≤ registry.sequence → registry.entries = w.registry.entries →
      (w.registry.closing = true → registry.closing = true) → t.destroys = none →
      ((∃ id, t = .unregister id .closing) ∨
        registry.closing = true ∧
          (t = .beginShutdown w.registry.entries ∨ ∃ ids thread, t = .closeBroker ids thread)) →
      Move w ({ w with registry }.spawn t)
  | forgotten {w : RegistryWorld} {id : String} {e : EntryState} : w.heap.lookup id = some e →
      e.drained = true → Move w { w with
        registry := { w.registry with entries := w.registry.entries.filter (· ≠ id) } }
  | admitted {w w' : RegistryWorld} {id : String} {e : EntryState} {finalization : Bool} :
      w.heap.lookup id = some e → R.admitEntry w id e finalization = .ok w' → Move w w'
  /-- A call gives up, or its callback returned. -/
  | left {w : RegistryWorld} {call : ℕ} {c : AdmittedCall} : w.calls.lookup call = some c →
      Move w (toStage w call c .leaving)
  | passed {w : RegistryWorld} {call : ℕ} {c : AdmittedCall} {e : EntryState} :
      w.calls.lookup call = some c → w.heap.lookup c.entryId = some e →
      e.opensFor c.finalization = true →
      Move w ((toStage w call c .dispatching).record (.passedGate call c.entryId))
  | started {w : RegistryWorld} {call : ℕ} {c : AdmittedCall} : w.calls.lookup call = some c →
      c.stage = .dispatching → Move w ((toStage w call c .calling).record (.started call c.entryId))
  | submitted {w : RegistryWorld} {call : ℕ} {c : AdmittedCall} {prepared : PreparedCapability}
      {answers : Answers} {stage : CallStage} : w.calls.lookup call = some c →
      stage ≠ .dispatching → Move w ((toStage w call c stage).withBroker
        (R.broker.perform w.broker (.submit prepared answers)))
  | dropped {w : RegistryWorld} {call : ℕ} {c : AdmittedCall} {e : EntryState} :
      w.calls.lookup call = some c → w.heap.lookup c.entryId = some e → c.stage = .leaving →
      Move w (dropPermit w call c e)
  | brokered {w : RegistryWorld} (step : BrokerStep) : (∀ id, step ≠ .unregister id) →
      Move w (w.withBroker (R.broker.perform w.broker step))
  /-- A task goes on or ends without touching a registration. -/
  | retasked {w : RegistryWorld} {k : ℕ} {t : RegistryTask} (t' : Option RegistryTask) :
      w.tasks.lookup k = some t → t.destroys = none → (∀ x, t' = some x → x.destroys = none) →
      (∀ x, t' = some x → ∃ ids releasing drained, x = .closeAndPoll ids releasing drained) →
      Move w { w with tasks := setTask w.tasks k t' }
  /-- A registration closes; the task destroys the callback next when it took it. -/
  | closed {w : RegistryWorld} {k : ℕ} {t t' : RegistryTask} {id : String} {e : EntryState} :
      w.tasks.lookup k = some t → t.destroys = none → w.heap.lookup id = some e →
      t'.destroys = (if { e with accepting := false }.retires then some id else none) →
      ((∃ stage, stage ≠ .closing ∧ t' = .unregister id stage) ∨
        ∃ ids releasing drained, t' = .closeAndPoll ids releasing drained) →
      Move w { w.closeEntry id e with tasks := w.tasks.insert k t' }
  /-- A destructor returned. -/
  | released {w : RegistryWorld} {k : ℕ} {t : RegistryTask} {id : String} (t' : Option RegistryTask) :
      w.tasks.lookup k = some t → t.destroys = some id → (∀ x, t' = some x → x.destroys = none) →
      (∀ x, t' = some x → (t = .unregister id .releasing ∧ x = .unregister id .retiring) ∨
        ∃ ids releasing drained, x = .closeAndPoll ids releasing drained) →
      Move w { w.endRelease id with tasks := setTask w.tasks k t' }
  | scanned {w : RegistryWorld} {k : ℕ} {id : String} :
      w.tasks.lookup k = some (.unregister id .retiring) → Move w { w with
        broker := { w.broker with threads := w.broker.threads ++ [[.scan id]] }
        tasks := w.tasks.insert k (.unregister id (.scanning w.broker.threads.length)) }
  | unregistered {w : RegistryWorld} {k thread : ℕ} {id : String} {e : EntryState} :
      w.tasks.lookup k = some (.unregister id (.scanning thread)) → w.heap.lookup id = some e →
      Move w ({ w with tasks := w.tasks.erase k }.record (.unregistered (e.status id)))
  | narrowed {w : RegistryWorld} {k : ℕ} {id : String} {ids : List String} {e : EntryState} :
      w.tasks.lookup k = some (.beginShutdown (id :: ids)) → w.heap.lookup id = some e →
      Move w { w with
        heap := w.heap.insert id { e with finalizationOnly := true }
        broker := { w.broker with gates.finalizationOnly := id :: w.broker.gates.finalizationOnly }
        tasks := w.tasks.insert k (.beginShutdown ids) }
  | shutDown {w : RegistryWorld} {k : ℕ} : w.tasks.lookup k = some (.beginShutdown []) →
      Move w ({ w with tasks := w.tasks.erase k }.record .shutdownBegun)

abbrev Moves : RegistryWorld → RegistryWorld → Prop := Relation.ReflTransGen R.Move

section
variable {R} {w w' : RegistryWorld}

theorem Move.moves (h : R.Move w w') : R.Moves w w' := .single h

theorem publish_moves {requests : List CapabilityRegistrationRequest}
    (h : w.registry.closing = false) : R.Moves w (requests.foldl R.publish w) := by
  induction requests generalizing w with
  | nil => exact .refl
  | cons request requests ih => exact .head (.published h) (ih h)

theorem checkUnregister_eq_ok {id : String} {registry : RegistryState}
    (h : checkUnregister w id = .ok registry) :
    w.registry.sequence ≤ registry.sequence ∧ registry.entries = w.registry.entries ∧
      registry.closing = w.registry.closing := by
  simp only [checkUnregister, Except.bind_eq_ok, refuseIf_eq_ok, okOr_eq_ok] at h
  obtain ⟨-, -, e, -, h⟩ := h
  split at h
  · simp only [Except.bind_eq_ok, okOr_eq_ok, checkedAdd_eq_some] at h
    obtain ⟨revision, ⟨-, rfl⟩, h⟩ := h
    cases h
    exact ⟨Nat.le_succ _, rfl, rfl⟩
  · cases h
    exact ⟨le_rfl, rfl, rfl⟩

theorem advance_move (ht : w.tasks.lookup k = some t) (h : advance w k t = some w') : R.Move w w' := by
  cases t with
  | unregister id stage =>
    cases stage with
    | closing =>
      obtain ⟨e, he, h⟩ := bind_eq_some_iff.1 h
      cases h
      refine .closed ht rfl he ?_ ?_
      · split <;> rfl
      · refine .inl ⟨_, ?_, rfl⟩
        split <;> exact nofun
    | releasing =>
      cases h
      refine .released (some _) ht rfl ?_ ?_
      · rintro _ ⟨⟩
        rfl
      · rintro _ ⟨⟩
        exact .inl ⟨rfl, rfl⟩
    | retiring =>
      cases h
      exact .scanned ht
    | scanning thread =>
      simp only [advance] at h
      split at h
      · obtain ⟨e, he, h⟩ := bind_eq_some_iff.1 h
        cases h
        exact .unregistered ht he
      · cases h
  | beginShutdown remaining =>
    cases remaining with
    | nil =>
      cases h
      exact .shutDown ht
    | cons id remaining =>
      obtain ⟨e, he, h⟩ := bind_eq_some_iff.1 h
      cases h
      exact .narrowed ht he
  | closeBroker remaining thread =>
    simp only [advance] at h
    split at h
    · cases h
      refine .retasked (some _) ht rfl ?_ ?_
      · rintro _ ⟨⟩
        rfl
      · rintro _ ⟨⟩
        exact ⟨_, _, _, rfl⟩
    · cases h
  | closeAndPoll remaining releasing drained =>
    cases releasing with
    | some id =>
      obtain ⟨e, he, h⟩ := bind_eq_some_iff.1 h
      cases h
      refine .released (some _) ht rfl ?_ ?_
      · rintro _ ⟨⟩
        rfl
      · rintro _ ⟨⟩
        exact .inr ⟨_, _, _, rfl⟩
    | none =>
      cases remaining with
      | nil =>
        cases h
        exact .retasked none ht rfl nofun nofun
      | cons id remaining =>
        obtain ⟨e, he, h⟩ := bind_eq_some_iff.1 h
        cases h
        refine .closed ht rfl he ?_ ?_
        · split <;> rfl
        · refine .inr ?_
          split <;> exact ⟨_, _, _, rfl⟩
  | dropNative id =>
    cases h
    exact .released none ht rfl nofun nofun

theorem step_moves (h : R.step w a = some w') : R.Moves w w' := by
  cases a with
  | register requests compiled =>
    simp only [step] at h
    split at h
    · cases h
      exact .refl
    next hc =>
      cases h
      apply publish_moves
      simp only [checkRegister, Except.bind_eq_ok, refuseIf_eq_ok] at hc
      obtain ⟨-, -, -, -, -, -, -, -, -, hclosing, -⟩ := hc
      simpa using hclosing
  | status id =>
    simp only [step] at h
    split at h
    · obtain ⟨e, he, rfl⟩ := map_eq_some_iff.1 h
      exact (Move.reported he).moves
    · cases h
      exact .refl
  | unregister id =>
    simp only [step] at h
    split at h
    · cases h
      exact .refl
    next registry hr =>
      cases h
      obtain ⟨hseq, hentries, hclosing⟩ := checkUnregister_eq_ok hr
      refine (Move.opened registry hseq hentries ?_ rfl (.inl ⟨id, rfl⟩)).moves
      intro hc
      rw [hclosing, hc]
  | beginShutdown =>
    cases h
    refine (Move.opened _ ?_ ?_ ?_ rfl (.inr ⟨?_, .inl rfl⟩)).moves
    · exact le_rfl
    · rfl
    · exact fun _ => rfl
    · rfl
  | closeAndPoll =>
    cases h
    refine .head (.brokered (.call .close) fun _ h => nomatch h) (Move.moves ?_)
    refine Move.opened (w := w.withBroker (R.broker.perform w.broker (.call .close)))
      { w.registry with closing := true, active := ∅ } ?_ ?_ ?_ ?_ ?_
    · exact le_rfl
    · rfl
    · exact fun _ => rfl
    · rfl
    · exact .inr ⟨rfl, .inr ⟨_, _, rfl⟩⟩
  | forget id =>
    simp only [step] at h
    split at h
    · obtain ⟨e, he, h⟩ := bind_eq_some_iff.1 h
      split at h
      next hd =>
        cases h
        exact (Move.forgotten he hd).moves
      next =>
        cases h
        exact .refl
    · cases h
      exact .refl
  | admission id finalization =>
    obtain ⟨e, he, h⟩ := bind_eq_some_iff.1 h
    split at h
    next w'' hok =>
      cases h
      exact (Move.admitted he hok).moves
    next =>
      cases h
      exact .refl
  | giveUp call =>
    obtain ⟨c, hc, h⟩ := bind_eq_some_iff.1 h
    split at h
    · cases h
      exact (Move.left hc).moves
    · cases h
  | dispatch call begin =>
    obtain ⟨c, hc, h⟩ := bind_eq_some_iff.1 h
    obtain ⟨e, he, h⟩ := bind_eq_some_iff.1 h
    split at h
    · split at h
      next hopen =>
        cases h
        exact (Move.passed hc he hopen.1).moves
      next =>
        cases h
        exact (Move.left hc).moves
    · cases h
  | invoke call =>
    obtain ⟨c, hc, h⟩ := bind_eq_some_iff.1 h
    split at h
    next hs =>
      cases h
      exact (Move.started hc hs).moves
    next => cases h
  | finish call =>
    obtain ⟨c, hc, h⟩ := bind_eq_some_iff.1 h
    split at h
    · cases h
      exact (Move.left hc).moves
    · cases h
  | submit call effectId caller arguments answers =>
    obtain ⟨c, hc, h⟩ := bind_eq_some_iff.1 h
    obtain ⟨e, he, h⟩ := bind_eq_some_iff.1 h
    split at h
    · cases h
      refine (Move.submitted hc ?_).moves
      split <;> exact nofun
    · cases h
  | surrendered call =>
    obtain ⟨c, hc, h⟩ := bind_eq_some_iff.1 h
    split at h
    · split at h
      · cases h
      · cases h
        exact (Move.left hc).moves
    · cases h
  | dropPermit call =>
    obtain ⟨c, hc, h⟩ := bind_eq_some_iff.1 h
    obtain ⟨e, he, h⟩ := bind_eq_some_iff.1 h
    split at h
    next hs =>
      cases h
      exact (Move.dropped hc he hs).moves
    next => cases h
  | broker call =>
    cases h
    exact (Move.brokered (.call call) fun _ h => nomatch h).moves
  | turn thread answers =>
    cases h
    exact (Move.brokered (.turn thread answers) fun _ h => nomatch h).moves
  | task k =>
    obtain ⟨t, ht, h⟩ := bind_eq_some_iff.1 h
    exact (advance_move ht h).moves

end

end CapabilityRegistry

end LuaSkills.Embedded
