import LuaSkills.SessionEvents.Protocol

/-!
# The event center runs the protocol

`Placed` says where the code keeps the one wake-up of a stage. Every step of the threads of a center
in such a state is a step of the protocol or leaves it where it is, and ends in such a state again.
-/

namespace LuaSkills.SessionEvents

open Except

variable {handovers : List RetryItem} {pending : Option RetryItem} {stage : Stage} {item : RetryItem}
  {generation : ℕ} {center : Center}

/-- The handovers, the retry slot and the worker while the wake-up is at a stage. -/
inductive Placed : List RetryItem → Option RetryItem → WorkerPhase → Stage → Prop
  | quiet : Placed [] none .idle .quiet
  | handover (item : RetryItem) :
      Placed [item] none .idle (.waiting item.invocation.generation item.invocation.epoch)
  | pending (item : RetryItem) :
      Placed [] (some item) .idle (.waiting item.invocation.generation item.invocation.epoch)
  | taken (item : RetryItem) :
      Placed [] none (.taken item) (.waiting item.invocation.generation item.invocation.epoch)
  | active (invocation : CallbackInvocation) :
      Placed [] none (.active invocation) (.waiting invocation.generation invocation.epoch)
  | enqueueing (item : RetryItem) :
      Placed [] none (.enqueueing item) (.waiting item.invocation.generation item.invocation.epoch)
  | invoking (invocation : CallbackInvocation) :
      Placed [] none (.invoking invocation) (.calling invocation.generation invocation.epoch)
  | finishing (generation : ℕ) : Placed [] none (.finishing generation) (.ending generation)

theorem Placed.of_handover (h : Placed handovers pending worker stage) (hi : handovers[i]? = some item) :
    handovers.eraseIdx i = [] ∧ pending = none ∧ worker = .idle ∧
      stage = .waiting item.invocation.generation item.invocation.epoch := by
  cases h with
  | handover item' =>
    cases i with
    | zero =>
      cases hi
      exact ⟨rfl, rfl, rfl, rfl⟩
    | succ i => cases hi
  | _ => cases hi

theorem Placed.of_finishing
    (h : Placed handovers pending (.finishing generation) stage) :
    handovers = [] ∧ pending = none ∧ stage = .ending generation := by
  cases h
  exact ⟨rfl, rfl, rfl⟩

theorem Placed.of_enqueueing
    (h : Placed handovers pending (.enqueueing item) stage) :
    handovers = [] ∧ pending = none ∧
      stage = .waiting item.invocation.generation item.invocation.epoch := by
  cases h
  exact ⟨rfl, rfl, rfl⟩

/-- The counters of in-flight callbacks when one generation is charged, or none. -/
def charged : Option ℕ → SortedMap ℕ ℕ
  | none => ∅
  | some generation => (∅ : SortedMap ℕ ℕ).insert generation 1

def CallbackRegistration.installed (registration : CallbackRegistration) : Installed where
  generation := registration.generation
  lastNotified := registration.lastNotifiedEpoch

namespace World

/-- What the protocol sees of the center while the wake-up is at a stage. -/
def protocol (w : World) (stage : Stage) : Protocol where
  epoch := w.center.nonemptyEpoch
  sequence := w.center.nextSequence
  callback := w.center.callback.map CallbackRegistration.installed
  generation := w.center.nextCallbackGeneration
  stage := stage
  replacements := w.replacements
  log := w.log

/-- The world keeps the wake-up of a stage, and nothing else. -/
structure Keeps (w : World) (stage : Stage) : Prop where
  placed : Placed w.handovers w.pending w.worker stage
  inflight : w.center.inflightCallbacks = charged stage.charge
  queue : w.center.nonemptyEpoch = none ↔ w.center.events = []
  slot : w.slotViolated = false

def Follows (w' : World) (s : Protocol) : Prop :=
  ∃ stage, w'.Keeps stage ∧ (w'.protocol stage = s ∨ Protocol.Shift s (w'.protocol stage))

section
variable {w w' : World} {stage : Stage}

theorem Keeps.follows (h : w.Keeps stage) : w.Follows (w.protocol stage) :=
  ⟨stage, h, .inl rfl⟩

theorem charged_isEmpty : (charged o).isEmpty = true ↔ o = none := by
  cases o with
  | none => simp [charged]
  | some g => simp [charged, SortedMap.insert_ne_empty]

theorem Stage.charge_eq_none : stage.charge = none ↔ stage = .quiet := by
  cases stage <;> simp [Stage.charge]

/-! ## Scheduling -/

/-- The code schedules exactly when the protocol does. -/
theorem Keeps.scheduleCallback (h : w.Keeps stage) (expected : Option ℕ) :
    (w.center.scheduleCallback expected = (w.center, none) ∧
        (w.protocol stage).schedule expected = w.protocol stage) ∨
      ∃ center invocation, w.center.scheduleCallback expected = (center, some invocation) ∧
        stage = .quiet ∧ center.inflightCallbacks = charged (some invocation.generation) ∧
        (center.nonemptyEpoch = none ↔ center.events = []) ∧
        ∀ w' : World, w'.center = center → w'.replacements = w.replacements →
          w'.log = w.log ++ [.scheduled invocation.generation invocation.epoch] →
          w'.protocol (.waiting invocation.generation invocation.epoch) =
            (w.protocol stage).schedule expected := by
  have hempty : w.center.inflightCallbacks.isEmpty = false ↔ stage ≠ .quiet := by
    rw [h.inflight, ← Bool.not_eq_true, charged_isEmpty, Stage.charge_eq_none]
  have hexpected : ∀ g, (expected.any fun g' => g' != g) = true ↔
      ¬ ∀ g', expected = some g' → g' = g := by
    intro g
    cases expected <;> simp
  cases he : w.center.nonemptyEpoch with
  | none => exact .inl (by simp [Center.scheduleCallback, Protocol.schedule, protocol, he])
  | some e =>
    cases hreg : w.center.callback with
    | none => exact .inl (by simp [Center.scheduleCallback, Protocol.schedule, protocol, he, hreg])
    | some reg =>
      simp only [Center.scheduleCallback, Protocol.schedule, protocol, he, hreg, hempty, hexpected,
        Option.map_some, CallbackRegistration.installed]
      by_cases hgo : stage = .quiet ∧ reg.lastNotifiedEpoch ≠ some e ∧
          ∀ g, expected = some g → g = reg.generation
      · rw [if_neg (by tauto), if_pos hgo]
        obtain ⟨rfl, -, -⟩ := hgo
        refine .inr ⟨_, _, rfl, rfl, ?_, ?_, ?_⟩
        · simp [h.inflight, charged, Stage.charge]
        · simpa [he] using h.queue
        · intro w' hc hr hl
          simp only [hc, hr, hl, Option.map_some, CallbackRegistration.installed]
      · rw [if_pos (by tauto), if_neg hgo]
        exact .inl ⟨rfl, rfl⟩

/-- Scheduling for a thread that hands the wake-up over later. -/
theorem Keeps.handOver (h : w.Keeps stage) (expected : Option ℕ) :
    ∃ stage', (w.handOver (w.center.scheduleCallback expected)).Keeps stage' ∧
      (w.handOver (w.center.scheduleCallback expected)).protocol stage' =
        (w.protocol stage).schedule expected := by
  rcases h.scheduleCallback expected with
    ⟨heq, hp⟩ | ⟨center, invocation, heq, rfl, hinflight, hqueue, hp⟩
  · rw [heq]
    exact ⟨stage, h, hp.symm⟩
  · rw [heq]
    refine ⟨.waiting invocation.generation invocation.epoch, ?_, hp _ rfl rfl rfl⟩
    obtain ⟨hplaced, -, -, hslot⟩ := h
    cases w
    cases hplaced
    exact ⟨.handover _, hinflight, hqueue, hslot⟩

/-! ## Replacements -/

theorem hasInflight_iff (h : w.Keeps stage) (barrier : ℕ) :
    w.center.hasInflightCallbackAtOrBefore barrier = true ↔
      ∃ g, stage.charge = some g ∧ g ≤ barrier := by
  unfold Center.hasInflightCallbackAtOrBefore
  rw [h.inflight]
  cases stage.charge with
  | none => simp [charged, SortedMap.keys]
  | some g => simp [charged, SortedMap.keys, SortedMap.insert, SortedMap.insertEntry]

theorem Keeps.endReplacement (h : w.Keeps stage) (r : Replacement) :
    ∃ stage', (w.endReplacement r).Keeps stage' ∧
      (w.endReplacement r).protocol stage' = (w.protocol stage).replaced r := by
  have hlogged : Keeps { w with log := w.log ++ [.replaced r] } stage :=
    ⟨h.placed, h.inflight, h.queue, h.slot⟩
  unfold World.endReplacement Protocol.replaced
  cases r.installed with
  | none => exact ⟨stage, hlogged, rfl⟩
  | some generation => exact hlogged.handOver (some generation)

theorem Keeps.awaitRetired (h : w.Keeps stage) (r : Replacement) :
    ∃ stage', (w.awaitRetired r).Keeps stage' ∧
      (w.awaitRetired r).protocol stage' = (w.protocol stage).await r := by
  have hiff := hasInflight_iff h r.barrier
  unfold World.awaitRetired Protocol.await
  by_cases hwait : ∃ g, (w.protocol stage).stage.charge = some g ∧ g ≤ r.barrier
  · rw [if_pos (hiff.2 hwait), if_pos hwait]
    exact ⟨stage, ⟨h.placed, h.inflight, h.queue, h.slot⟩, rfl⟩
  · rw [if_neg (fun hc => hwait (hiff.1 hc)), if_neg hwait]
    exact h.endReplacement r

/-! ## The steps of the threads -/

theorem Keeps.withEvents {pendingSlots : Finset ManagedSessionEventSlot} (h : w.Keeps stage)
    (hcenter : { center with registeredSessions := w.center.registeredSessions } = w.center)
    (hevents : w.center.events = [] → events = []) :
    Follows { w with center := center.withEvents events pendingSlots } (w.protocol stage) := by
  obtain ⟨hplaced, hinflight, hqueue, hslot⟩ := h
  rw [← hcenter] at hinflight hqueue hevents
  refine ⟨stage, ⟨hplaced, hinflight, ?_, hslot⟩, ?_⟩
  · cases events with
    | nil => simp [Center.withEvents]
    | cons event rest =>
      have hne : center.events ≠ [] := fun hnil => nomatch hevents hnil
      simpa [Center.withEvents, hne] using hqueue
  · unfold protocol
    rw [← hcenter]
    cases events with
    | nil => exact .inr .drained
    | cons event rest => exact .inl rfl

theorem Keeps.drainEvents (h : w.Keeps stage) (maxEvents : ℕ) (timedOut : Bool) :
    Follows { w with center := (w.center.drainEvents maxEvents timedOut).1 }
      (w.protocol stage) := by
  apply h.withEvents rfl
  intro hnil
  simp [hnil]

theorem Keeps.publish (h : w.Keeps stage)
    (hp : w.center.publish token kind = .ok (center, queued, invocation)) :
    (w.handOver (center, invocation)).Follows (w.protocol stage) := by
  simp only [Center.publish, bind_eq_ok, refuseIf_eq_ok] at hp
  obtain ⟨-, -, -, -, hp⟩ := hp
  split at hp
  next =>
    cases hp
    exact h.follows
  next =>
    simp only [bind_eq_ok, refuseIf_eq_ok, okOr_eq_ok, checkedAdd_eq_some] at hp
    obtain ⟨-, -, sequence, ⟨-, rfl⟩, hp⟩ := hp
    cases hp
    have happended : Keeps { w with
        center := w.center.appendEvent token kind (w.center.nextSequence + 1) } stage := by
      refine ⟨h.placed, h.inflight, ?_, h.slot⟩
      have hqueue := h.queue
      cases hevents : w.center.events with
      | nil => simp [Center.appendEvent, hevents]
      | cons event rest => simpa [Center.appendEvent, hevents] using hqueue
    have hepoch : protocol { w with
        center := w.center.appendEvent token kind (w.center.nextSequence + 1) } stage =
          (w.protocol stage).publishEpoch := by
      have hqueue := h.queue
      cases he : w.center.nonemptyEpoch with
      | none =>
        have hnil := hqueue.1 he
        simp [protocol, Center.appendEvent, Protocol.publishEpoch, hnil, he]
      | some e =>
        have hne : w.center.events ≠ [] := fun hnil => by cases he.symm.trans (hqueue.2 hnil)
        simp [protocol, Center.appendEvent, Protocol.publishEpoch, hne, he]
    obtain ⟨stage', hkeeps, hprotocol⟩ := happended.handOver none
    rw [hepoch] at hprotocol
    exact ⟨stage', hkeeps, .inr (hprotocol ▸ .published)⟩

theorem Keeps.setWakeCallback (h : w.Keeps stage)
    (hr : w.center.replaceCallback callback = .ok (center, installed)) :
    ({ w with center := center }.awaitRetired {
      barrier := w.center.nextCallbackGeneration
      installed := installed }).Follows (w.protocol stage) := by
  simp only [Center.replaceCallback, bind_eq_ok, refuseIf_eq_ok] at hr
  obtain ⟨-, -, hr⟩ := hr
  cases callback with
  | none =>
    cases hr
    have hkeeps : Keeps { w with center := { w.center with callback := none } } stage :=
      ⟨h.placed, h.inflight, h.queue, h.slot⟩
    obtain ⟨stage', hkeeps', hprotocol⟩ := hkeeps.awaitRetired
      { barrier := w.center.nextCallbackGeneration, installed := none }
    exact ⟨stage', hkeeps', .inr (hprotocol ▸ .cleared)⟩
  | some callback =>
    simp only [bind_eq_ok, okOr_eq_ok, checkedAdd_eq_some] at hr
    obtain ⟨generation, ⟨-, rfl⟩, hr⟩ := hr
    cases hr
    have hkeeps : Keeps { w with
        center := { w.center with
          nextCallbackGeneration := w.center.nextCallbackGeneration + 1
          callback := some {
            generation := w.center.nextCallbackGeneration + 1
            callback := callback
            lastNotifiedEpoch := none } } } stage :=
      ⟨h.placed, h.inflight, h.queue, h.slot⟩
    obtain ⟨stage', hkeeps', hprotocol⟩ := hkeeps.awaitRetired {
      barrier := w.center.nextCallbackGeneration
      installed := some (w.center.nextCallbackGeneration + 1) }
    exact ⟨stage', hkeeps', .inr (hprotocol ▸ .set)⟩

theorem Keeps.close (h : w.Keeps stage) :
    ({ w with center := { w.center with closed := true, callback := none } }.awaitRetired {
      barrier := w.center.nextCallbackGeneration
      installed := none }).Follows (w.protocol stage) := by
  have hkeeps : Keeps { w with center := { w.center with closed := true, callback := none } } stage :=
    ⟨h.placed, h.inflight, h.queue, h.slot⟩
  obtain ⟨stage', hkeeps', hprotocol⟩ := hkeeps.awaitRetired
    { barrier := w.center.nextCallbackGeneration, installed := none }
  exact ⟨stage', hkeeps', .inr (hprotocol ▸ .cleared)⟩

theorem Keeps.finish (h : w.Keeps (.ending generation)) :
    Keeps { w with
      center := w.center.retireInflight generation
      worker := .idle } .quiet := by
  obtain ⟨hplaced, hinflight, hqueue, hslot⟩ := h
  refine ⟨?_, ?_, hqueue, hslot⟩
  · cases w
    cases hplaced
    exact .quiet
  · simp only [Center.retireInflight, hinflight, charged, Stage.charge,
      SortedMap.lookup_insert_self, Nat.lt_irrefl, if_false]
    apply SortedMap.eq_empty_of_lookup
    intro k
    simp [SortedMap.lookup_erase, SortedMap.lookup_insert]

/-- A wake-up on its way elsewhere finds the slot of the retry center empty. -/
theorem Keeps.enqueue {worker : WorkerPhase}
    (h : w.Keeps stage) (hpending : w.pending = none) (hhandovers : handovers = [])
    (hworker : worker = .idle)
    (hstage : stage = .waiting item.invocation.generation item.invocation.epoch) :
    ({ w with handovers := handovers, worker := worker }.enqueue item).Follows
      (w.protocol stage) := by
  subst hhandovers hworker hstage
  simp only [World.enqueue, hpending]
  exact ⟨_, ⟨.pending item, h.inflight, h.queue, h.slot⟩, .inl rfl⟩

theorem Keeps.check (h : w.Keeps stage) (hw : w.worker = .taken item) :
    Follows { w with
      worker := if w.center.isActive item.invocation then .active item.invocation
        else .finishing item.invocation.generation } (w.protocol stage) := by
  obtain ⟨hplaced, hinflight, hqueue, hslot⟩ := h
  cases w with | mk center pending handovers worker replacements slotViolated log => ?_
  cases hw
  cases hplaced
  split
  next => exact ⟨_, ⟨.active _, hinflight, hqueue, hslot⟩, .inl rfl⟩
  next hactive =>
    refine ⟨_, ⟨.finishing _, hinflight, hqueue, hslot⟩, .inr (.cancelled rfl ?_)⟩
    intro reg hreg hgen he
    obtain ⟨registration, hregistration, rfl⟩ := Option.map_eq_some_iff.1 hreg
    have hcallback : center.callback = some registration := hregistration
    apply hactive
    simp only [Center.isActive, hcallback, decide_eq_true_eq]
    exact ⟨hgen, he⟩

theorem Keeps.callbackReturns (h : w.Keeps stage) (hw : w.worker = .invoking invocation)
    (outcome : CallbackOutcome) : Follows { w with
      worker := afterCallback invocation outcome
      log := w.log ++ [.cameBack invocation.generation invocation.epoch outcome] }
      (w.protocol stage) := by
  obtain ⟨hplaced, hinflight, hqueue, hslot⟩ := h
  cases w with | mk center pending handovers worker replacements slotViolated log => ?_
  cases hw
  cases hplaced
  cases outcome with
  | returned | panicked =>
    exact ⟨_, ⟨.finishing _, hinflight, hqueue, hslot⟩, .inr (.completed rfl (nomatch ·))⟩
  | failed => exact ⟨_, ⟨.enqueueing _, hinflight, hqueue, hslot⟩, .inr (.failed rfl)⟩

theorem Keeps.workerFinishes (h : w.Keeps stage)
    (hw : w.worker = .finishing generation) (hstep : w.step .workerFinishes = some w') :
    w'.Follows (w.protocol stage) := by
  obtain ⟨hhandovers, hpending, rfl⟩ := Placed.of_finishing (hw ▸ h.placed)
  have hidle := h.finish
  have hfinished : Protocol.Shift (w.protocol (.ending generation))
      (Protocol.schedule { w.protocol (.ending generation) with stage := .quiet } (some generation)) :=
    .finished rfl
  simp only [World.step, hw, Center.finishCallbackInvocation] at hstep
  rcases hidle.scheduleCallback (some generation) with
    ⟨heq, hp⟩ | ⟨center, invocation, heq, -, hinflight, hqueue, hp⟩
  · simp only at heq
    rw [heq] at hstep
    cases hstep
    refine ⟨.quiet, hidle, .inr ?_⟩
    rw [← hp]
    exact hfinished
  · simp only at heq
    rw [heq] at hstep
    cases hstep
    refine ⟨.waiting invocation.generation invocation.epoch, ⟨?_, hinflight, hqueue, h.slot⟩, .inr ?_⟩
    · simp only [hhandovers, hpending]
      exact .enqueueing _
    · convert hfinished using 1
      exact hp _ rfl rfl rfl

/-- Every step of the code is a step of the protocol, or none. -/
theorem Keeps.step (h : w.Keeps stage) (hstep : w.step a = some w') : w'.Follows (w.protocol stage) := by
  cases a with
  | register token =>
    simp only [World.step] at hstep
    split at hstep
    next center hr =>
      cases hstep
      simp only [Center.registerSession, bind_eq_ok, refuseIf_eq_ok] at hr
      obtain ⟨-, -, -, -, -, -, hr⟩ := hr
      cases hr
      exact ⟨stage, ⟨h.placed, h.inflight, h.queue, h.slot⟩, .inl rfl⟩
    next =>
      cases hstep
      exact h.follows
  | unregister token =>
    cases hstep
    unfold Center.unregisterSession
    split
    · refine h.withEvents ?_ ?_
      · rfl
      · intro hnil
        simp [hnil]
    · exact h.follows
  | publish token kind =>
    simp only [World.step] at hstep
    split at hstep
    next center queued invocation hp =>
      cases hstep
      exact h.publish hp
    next =>
      cases hstep
      exact h.follows
  | poll maxEvents =>
    simp only [World.step] at hstep
    split at hstep
    next center batch hp =>
      cases hstep
      simp only [Center.poll, bind_eq_ok, refuseIf_eq_ok] at hp
      obtain ⟨-, -, -, -, hp⟩ := hp
      cases hp
      exact h.drainEvents maxEvents false
    next =>
      cases hstep
      exact h.follows
  | waitRound maxEvents timeoutMs expired =>
    simp only [World.step] at hstep
    split at hstep
    next center batch hp =>
      cases hstep
      have hdrained : ∃ timedOut, center = (w.center.drainEvents maxEvents timedOut).1 := by
        simp only [Center.waitRound, bind_eq_ok, refuseIf_eq_ok] at hp
        obtain ⟨-, -, hp⟩ := hp
        split at hp
        · cases hp
          exact ⟨false, rfl⟩
        simp only [bind_eq_ok, refuseIf_eq_ok] at hp
        obtain ⟨-, -, hp⟩ := hp
        split at hp
        · cases hp
          exact ⟨true, rfl⟩
        simp only [bind_eq_ok, refuseIf_eq_ok] at hp
        obtain ⟨-, -, hp⟩ := hp
        split at hp
        · cases hp
          exact ⟨true, rfl⟩
        · cases hp
      obtain ⟨timedOut, rfl⟩ := hdrained
      exact h.drainEvents maxEvents timedOut
    next =>
      cases hstep
      exact h.follows
  | handOver index =>
    simp only [World.step] at hstep
    split at hstep
    next item hitem =>
      cases hstep
      obtain ⟨herased, hpending, hworker, rfl⟩ := h.placed.of_handover hitem
      exact h.enqueue hpending herased hworker rfl
    next => cases hstep
  | setWakeCallback onCallback callback =>
    simp only [World.step] at hstep
    split at hstep
    next =>
      split at hstep
      · cases hstep
        exact h.follows
      · cases hstep
    next =>
      split at hstep
      next center installed hr =>
        cases hstep
        exact h.setWakeCallback hr
      next =>
        cases hstep
        exact h.follows
  | close onCallback =>
    simp only [World.step] at hstep
    split at hstep
    next =>
      split at hstep
      · cases hstep
        exact h.follows
      · cases hstep
    next =>
      cases hstep
      exact h.close
  | replacementWakes index =>
    simp only [World.step] at hstep
    split at hstep
    next replacement hr =>
      cases hstep
      have hkeeps : Keeps { w with replacements := w.replacements.eraseIdx index } stage :=
        ⟨h.placed, h.inflight, h.queue, h.slot⟩
      obtain ⟨stage', hkeeps', hprotocol⟩ := hkeeps.awaitRetired replacement
      exact ⟨stage', hkeeps', .inr (hprotocol ▸ .woken hr)⟩
    next => cases hstep
  | workerTakes =>
    simp only [World.step] at hstep
    split at hstep
    next item hworker hpending =>
      cases hstep
      obtain ⟨hplaced, hinflight, hqueue, hslot⟩ := h
      cases w
      cases hworker
      cases hpending
      cases hplaced
      exact ⟨_, ⟨.taken item, hinflight, hqueue, hslot⟩, .inl rfl⟩
    next => cases hstep
  | workerChecks =>
    simp only [World.step] at hstep
    split at hstep
    next item hworker =>
      cases hstep
      exact h.check hworker
    next => cases hstep
  | workerInvokes =>
    simp only [World.step] at hstep
    split at hstep
    next invocation hworker =>
      cases hstep
      obtain ⟨hplaced, hinflight, hqueue, hslot⟩ := h
      cases w
      cases hworker
      cases hplaced
      exact ⟨_, ⟨.invoking invocation, hinflight, hqueue, hslot⟩, .inr (.invoked rfl)⟩
    next => cases hstep
  | callbackReturns outcome =>
    simp only [World.step] at hstep
    split at hstep
    next invocation hworker =>
      split at hstep
      · cases hstep
      · cases hstep
        exact h.callbackReturns hworker _
    next => cases hstep
  | workerFinishes =>
    cases hworker : w.worker with
    | finishing generation => exact h.workerFinishes hworker hstep
    | _ => simp [World.step, hworker] at hstep
  | workerEnqueues =>
    simp only [World.step] at hstep
    split at hstep
    next item hworker =>
      cases hstep
      obtain ⟨hhandovers, hpending, rfl⟩ := Placed.of_enqueueing (hworker ▸ h.placed)
      exact h.enqueue hpending hhandovers rfl rfl
    next => cases hstep

end

end World

end LuaSkills.SessionEvents
