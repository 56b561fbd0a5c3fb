import LuaSkills.SessionEvents.Refinement

/-!
# Wake-ups over whole runs

Every run of a center starts empty with no callback. The theorem below collects what the protocol
invariant says about the code in any state a run reaches.
-/

namespace LuaSkills.SessionEvents

namespace World

/-- A center just created, with its worker idle. -/
def opened (center : Center) : World where
  center := center
  pending := none
  handovers := []
  worker := .idle
  replacements := []
  slotViolated := false
  log := []

def run (w : World) : List Act → Option World
  | [] => some w
  | a :: acts => (w.step a).bind fun w' => w'.run acts

/-- The invocations scheduled and not yet finished, wherever they are. -/
def inFlight (w : World) : ℕ :=
  w.handovers.length + w.pending.toList.length + match w.worker with
    | .idle => 0
    | _ => 1

/-- Some stage of the protocol describes the world. -/
def Sound (w : World) : Prop := ∃ stage, w.Keeps stage ∧ (w.protocol stage).Inv

theorem opened_sound {maxSessions : ℕ} {center : Center} (h : Center.new maxSessions = .ok center) :
    (opened center).Sound := by
  simp only [Center.new, Except.bind_eq_ok, refuseIf_eq_ok] at h
  obtain ⟨-, -, capacity, -, h⟩ := h
  cases h
  refine ⟨.quiet, ⟨.quiet, rfl, ⟨fun _ => rfl, fun _ => rfl⟩, rfl⟩, ?_⟩
  constructor
  · constructor <;>
      simp [opened, protocol, Stage.charge, Protocol.failures, LegalLog.nil]
  · rintro reg e ⟨⟩

theorem Sound.step {w : World} (h : w.Sound) (hstep : w.step a = some w') : w'.Sound := by
  obtain ⟨stage, hkeeps, hinv⟩ := h
  obtain ⟨stage', hkeeps', heq | hshift⟩ := hkeeps.step hstep
  · exact ⟨stage', hkeeps', heq ▸ hinv⟩
  · exact ⟨stage', hkeeps', hinv.shift hshift⟩

theorem Sound.run {w : World} (h : w.Sound) (hrun : w.run acts = some w') : w'.Sound := by
  induction acts generalizing w with
  | nil =>
    cases hrun
    exact h
  | cons a acts ih =>
    obtain ⟨mid, hstep, hrun⟩ := Option.bind_eq_some_iff.1 hrun
    exact ih (h.step hstep) hrun

theorem Placed.inFlight_le {w : World} (h : Placed w.handovers w.pending w.worker stage) :
    w.inFlight ≤ 1 := by
  unfold inFlight
  generalize w.handovers = handovers at *
  generalize w.pending = pending at *
  generalize w.worker = worker at *
  cases h <;> simp

theorem Placed.quiet_of_inFlight {w : World} (h : Placed w.handovers w.pending w.worker stage)
    (hzero : w.inFlight = 0) : stage = .quiet := by
  unfold inFlight at hzero
  generalize w.handovers = handovers at *
  generalize w.pending = pending at *
  generalize w.worker = worker at *
  cases h with
  | quiet => rfl
  | _ => simp at hzero

/-- Wake-ups of a center are neither lost, concurrent nor stale, after any steps of its threads. At
most one invocation exists and the slot assertion never fails. While the queue is nonempty, a callback
is installed, nothing is in flight and no replacement waits, that callback came back from an
invocation for the current epoch. A callback is invoked for an epoch once, and again only after a
failure. After a replacement returned, no callback up to its barrier is invoked: these are the
generations given out before it began, and the callback it installed is of the next one. -/
theorem wakeups_sound {maxSessions : ℕ} {center : Center} {acts : List Act} {w : World}
    (hnew : Center.new maxSessions = .ok center) (hrun : (opened center).run acts = some w) :
    w.inFlight ≤ 1 ∧ w.slotViolated = false ∧
    (∀ registration, w.center.events ≠ [] → w.center.callback = some registration →
      w.inFlight = 0 → w.replacements = [] →
      ∃ epoch outcome, w.center.nonemptyEpoch = some epoch ∧
        registration.lastNotifiedEpoch = some epoch ∧ outcome ≠ .failed ∧
        .cameBack registration.generation epoch outcome ∈ w.log) ∧
    (∀ generation epoch, w.log.count (.invoked generation epoch) ≤
      1 + w.log.count (.cameBack generation epoch .failed)) ∧
    (∀ before replacement between generation epoch after,
      w.log = before ++ .replaced replacement :: between ++ .invoked generation epoch :: after →
      replacement.barrier < generation) ∧
    (∀ replacement generation, .replaced replacement ∈ w.log →
      replacement.installed = some generation → generation = replacement.barrier + 1) := by
  obtain ⟨stage, hkeeps, hinv⟩ := (opened_sound hnew).run hrun
  refine ⟨Placed.inFlight_le hkeeps.placed, hkeeps.slot, ?_, ?_, ?_, ?_⟩
  · intro registration hevents hcallback hzero hno
    obtain rfl := Placed.quiet_of_inFlight hkeeps.placed hzero
    obtain ⟨epoch, hepoch⟩ := Option.ne_none_iff_exists'.1 (mt hkeeps.queue.1 hevents)
    have hreg : (w.protocol .quiet).callback = some registration.installed := by
      simp [protocol, hcallback]
    obtain ⟨outcome, houtcome, hmem⟩ := hinv.notified_of_quiet hreg hepoch rfl hno
    exact ⟨epoch, outcome, hepoch, hinv.last_of_quiet hreg hepoch rfl hno, houtcome, hmem⟩
  · exact hinv.invoked_le
  · intro before replacement between generation epoch after hlog
    have hfresh := hinv.fresh _ _ _ hlog
    exact hfresh replacement (by simp)
  · intro replacement generation hmem
    exact hinv.replaced_installed replacement hmem generation

/-- A session whose queue drains and refills while its callback runs and fails once. -/
def refillActs : List Act :=
  let token := { systemLeaseId := "lease", sid := "sid", generation := 1, managedSessionId := 7 }
  [.register token, .setWakeCallback false (some (.fallible 0)), .publish token .stdoutReadable,
    .handOver 0, .workerTakes, .workerChecks, .workerInvokes, .callbackReturns .failed,
    .workerEnqueues, .workerTakes, .workerChecks, .workerInvokes, .poll 8,
    .publish token .exited, .callbackReturns .returned, .workerFinishes, .workerEnqueues,
    .workerTakes, .workerChecks, .workerInvokes, .setWakeCallback false (some (.infallible 1)),
    .callbackReturns .returned, .workerFinishes, .replacementWakes 0, .handOver 0, .workerTakes,
    .workerChecks, .workerInvokes, .callbackReturns .panicked, .workerFinishes]

/-- A center of two sessions, as `Center.new` builds it. -/
def twoSessions : Center where
  maxSessions := 2
  capacity := 8
  registeredSessions := ∅
  pendingSlots := ∅
  events := []
  nextSequence := 0
  nonemptyEpoch := none
  closed := false
  callback := none
  nextCallbackGeneration := 0
  inflightCallbacks := ∅

theorem wakeups_sound_refill : Center.new 2 = .ok twoSessions ∧
    ∃ w, (opened twoSessions).run refillActs = some w ∧ w.center.events.length = 1 ∧
      w.inFlight = 0 ∧ w.replacements = [] ∧ w.center.callback.isSome = true ∧
      w.log.count (.invoked 1 1) ≤ 1 + w.log.count (.cameBack 1 1 .failed) := by
  have hnew : Center.new 2 = .ok twoSessions := rfl
  obtain ⟨w, hrun, hfacts⟩ : ∃ w, (opened twoSessions).run refillActs = some w ∧
      w.center.events.length = 1 ∧ w.inFlight = 0 ∧ w.replacements = [] ∧
      w.center.callback.isSome = true := ⟨_, rfl, rfl, rfl, rfl, rfl⟩
  obtain ⟨hevents, hzero, hno, hcallback⟩ := hfacts
  exact ⟨hnew, w, hrun, hevents, hzero, hno, hcallback, (wakeups_sound hnew hrun).2.2.2.1 1 1⟩

end World

end LuaSkills.SessionEvents
