import LuaSkills.Embedded.Operation.Protocol

/-!
# Calls are moves

Each call on a queued operation is a sequence of moves. `Driven` is what `drive` does to a retained
candidate; the callers of `drive` then consume, publish or leave what it acknowledged.
-/

namespace LuaSkills.Embedded

open WriterWorld Option OperationWorld

namespace Operation
variable {O : Operation} {K : Allowance}
  {w v u : OperationWorld} {c c' : PendingCheckpoint} {σ : Slot} {result : EmbeddedResult Bool}

/-- Driving a candidate leaves everything else. -/
structure Driven (O : Operation) (K : Allowance) (σ : Slot)
    (w v : OperationWorld) : Prop where
  moves : Moves O K w v
  snapshot : v.snapshot = w.snapshot
  ledger : v.ledger = w.ledger
  authorized : v.authorized = w.authorized
  pendingCompletion : v.pendingCompletion = w.pendingCompletion
  slot : ∀ c, w.slot σ = some c → ∃ c', v.slot σ = some c' ∧ Continues c c'

theorem Driven.refl (w : OperationWorld) : Driven O K σ w w :=
  ⟨.refl, rfl, rfl, rfl, rfl, fun c h => ⟨c, h, .refl c⟩⟩

theorem Driven.trans (h : Driven O K σ w v) (h' : Driven O K σ v u) : Driven O K σ w u where
  moves := h.moves.trans h'.moves
  snapshot := h'.snapshot.trans h.snapshot
  ledger := h'.ledger.trans h.ledger
  authorized := h'.authorized.trans h.authorized
  pendingCompletion := h'.pendingCompletion.trans h.pendingCompletion
  slot c hc := by
    obtain ⟨c', hc', hcont⟩ := h.slot c hc
    obtain ⟨c'', hc'', hcont'⟩ := h'.slot c' hc'
    exact ⟨c'', hc'', hcont.trans hcont'⟩

theorem Driven.progress (h : w.slot σ = some c) (hp : Progress O K w c v c') :
    Driven O K σ w (v.setSlot σ (some c')) := by
  have hb := hp.beside
  refine ⟨.single (.progress h hp), hb.snapshot, hb.ledger, hb.authorized, hb.pendingCompletion,
    fun d hd => ?_⟩
  cases h.symm.trans hd
  exact ⟨c', slot_setSlot .., hp.continues⟩

theorem held_of_slot (h : w.slot σ = some c) (d : PendingCheckpoint) : held w σ d = c := by
  rw [held, h]
  rfl

/-! ## The phases of `drive` -/

theorem Driven.permitRetry (h : w.slot σ = some c) {retry : Bool} (hr : retry → K.retry) :
    Driven O K σ w (permitRetry w σ c retry) := by
  by_cases hp : retry ∨ c.retry = .requested
  · simp only [Operation.permitRetry, Bool.or_eq_true, decide_eq_true_eq, if_pos hp]
    exact .progress h (.permit hp hr)
  · have : Operation.permitRetry w σ c retry = w := by
      unfold Operation.permitRetry
      rw [not_or, Bool.not_eq_true] at hp
      simp [hp.1, hp.2, setSlot_self h]
    rw [this]
    exact .refl w

theorem Driven.submitNew (h : w.slot σ = some c) (queuePoisoned : Bool) :
    Driven O K σ w (O.submitNew w σ c queuePoisoned) ∧
      ∀ c', (O.submitNew w σ c queuePoisoned).slot σ = some c' → c'.attempt ≠ .new := by
  unfold Operation.submitNew
  split
  · next hc =>
    refine ⟨.progress h (.submit queuePoisoned hc), fun c' hc' => ?_⟩
    rw [slot_setSlot] at hc'
    cases hc'
    dsimp only
    split <;> nofun
  · next hc =>
    refine ⟨.refl w, fun c' hc' => ?_⟩
    cases h.symm.trans hc'
    exact hc

theorem acknowledged_ofResult (x : EmbeddedResult ℕ) : acknowledged (.ofResult x) = x := by
  cases x <;> rfl

/-- What an attempt shows once its result has been observed. -/
def Shows (result : EmbeddedResult Bool) (attempt : Attempt) : Prop :=
  match result with
  | .ok true => attempt = .acknowledged
  | .ok false => True
  | .error e => attempt = .failed e ∨ ∃ id, attempt = .unobservable id e

theorem Driven.observeAttempt (P : Protocol O w) (h : w.slot σ = some c) (hn : c.attempt ≠ .new)
    (receiptPoisoned : Bool) :
    Driven O K σ w (O.observeAttempt w σ c receiptPoisoned).1 ∧
      ∀ c', (O.observeAttempt w σ c receiptPoisoned).1.slot σ = some c' →
        Shows (O.observeAttempt w σ c receiptPoisoned).2 c'.attempt := by
  have keep : ∀ c', w.slot σ = some c' → c' = c := fun c' hc' => some.inj (hc'.symm.trans h)
  cases ha : c.attempt with
  | new => exact absurd ha hn
  | acknowledged =>
    simp only [Operation.observeAttempt, ha]
    refine ⟨.refl w, fun c' hc' => ?_⟩
    rw [keep c' hc']
    exact ha
  | failed e =>
    simp only [Operation.observeAttempt, ha]
    refine ⟨.refl w, fun c' hc' => ?_⟩
    rw [keep c' hc']
    exact .inl ha
  | unobservable id e =>
    simp only [Operation.observeAttempt, ha]
    refine ⟨.refl w, fun c' hc' => ?_⟩
    rw [keep c' hc']
    exact .inr ⟨id, ha⟩
  | submitted id =>
    obtain ⟨x, hx, hreq⟩ := (P.held σ c h).receipt id (by rw [ha]; rfl)
    obtain ⟨receipt, hr, rfl⟩ : ∃ receipt, w.writer.receipts[id]? = some receipt ∧
        (receipt.request, receipt.bytes) = x := by
      simpa [WriterWorld.charges] using hx
    simp only [Operation.observeAttempt, ha, hr]
    split
    · refine ⟨.progress h (.lose ha), fun c' hc' => ?_⟩
      rw [slot_setSlot] at hc'
      cases hc'
      exact .inr ⟨id, rfl⟩
    split
    · exact ⟨.refl w, fun _ _ => trivial⟩
    next hp =>
      obtain ⟨n, p, W⟩ := P.writer
      obtain ⟨result, -, hs⟩ := W.outcomes.of_completed hr (not_not.1 hp)
      rw [hs, acknowledged_ofResult]
      cases result with
      | ok next =>
        have hrev : ¬ w.revision ≠ receipt.request.expectedRevision :=
          not_not.2 (congrArg WriteRequest.expectedRevision hreq).symm
        simp only [if_neg hrev]
        refine ⟨.progress h (.acknowledge ha hr hs), fun c' hc' => ?_⟩
        rw [acknowledge, replaceAttempt, slot_setSlot] at hc'
        cases hc'
        rfl
      | error e =>
        refine ⟨.progress h (.fail ha hr hs), fun c' hc' => ?_⟩
        change (O.replaceAttempt w σ c id (.failed e)).slot σ = some c' at hc'
        rw [replaceAttempt, slot_setSlot] at hc'
        cases hc'
        exact .inl rfl

theorem Driven.recordResult (h : w.slot σ = some c) (hs : Shows result c.attempt) :
    Driven O K σ w (recordResult w σ c result) ∧
      ∀ c', (Operation.recordResult w σ c result).slot σ = some c' → c'.attempt = c.attempt := by
  match result, hs with
  | .ok true, hs =>
    refine ⟨.progress h (.settle hs), fun c' hc' => ?_⟩
    rw [Operation.recordResult, slot_setSlot] at hc'
    cases hc'
    rfl
  | .ok false, _ =>
    refine ⟨.refl w, fun c' hc' => ?_⟩
    cases h.symm.trans hc'
    rfl
  | .error e, hs =>
    refine ⟨.progress h (.report hs), fun c' hc' => ?_⟩
    rw [Operation.recordResult, slot_setSlot] at hc'
    cases hc'
    rfl

/-- Driving a candidate; when it reports success the candidate is acknowledged. -/
theorem Driven.drive (P : Protocol O w) (h : w.slot σ = some c) {retry : Bool}
    (hr : retry → K.retry) (faults : DriveFaults) :
    Driven O K σ w (O.drive w σ c retry faults).1 ∧
      ∃ c', (O.drive w σ c retry faults).1.slot σ = some c' ∧ Continues c c' ∧
        Shows (O.drive w σ c retry faults).2 c'.attempt := by
  have d₁ := Driven.permitRetry (O := O) h hr
  obtain ⟨c₁, h₁, -⟩ := d₁.slot c h
  obtain ⟨d₂, hnew⟩ := Driven.submitNew (O := O) (K := K) h₁ faults.queuePoisoned
  obtain ⟨c₂, h₂, -⟩ := d₂.slot c₁ h₁
  have P₂ := P.moves (d₁.trans d₂).moves
  obtain ⟨d₃, hshow⟩ := Driven.observeAttempt (K := K) P₂ h₂ (hnew c₂ h₂) faults.receiptPoisoned
  obtain ⟨c₃, h₃, -⟩ := d₃.slot c₂ h₂
  obtain ⟨d₄, hkeep⟩ := Driven.recordResult (O := O) (K := K) h₃ (hshow c₃ h₃)
  obtain ⟨c₄, h₄, -⟩ := d₄.slot c₃ h₃
  have d := ((d₁.trans d₂).trans d₃).trans d₄
  simp only [Operation.drive, held_of_slot h₁, held_of_slot h₂, held_of_slot h₃]
  obtain ⟨c', hc', hcont⟩ := d.slot c h
  refine ⟨d, c', hc', hcont, ?_⟩
  rw [hkeep c' hc']
  exact hshow c₃ h₃

/-! ## Consuming what was acknowledged -/

/-- A call of moves that leaves the pending completion and whose success promises `Q`. -/
structure Goes (O : Operation) (K : Allowance)
    (Q : OperationWorld → Prop) (w : OperationWorld) (x : OperationWorld × EmbeddedResult Bool) :
    Prop where
  moves : Moves O K w x.1
  pending : x.1.pendingCompletion = w.pendingCompletion
  success : x.2 = .ok true → Q x.1

variable {Q : OperationWorld → Prop} {effect : Option CheckpointEffect} {phase : OperationPhase}

theorem Goes.after (g : Goes O K Q v x) (h : Moves O K w v) (hp : v.pendingCompletion = w.pendingCompletion) :
    Goes O K Q w x :=
  ⟨h.trans g.moves, g.pending.trans hp, g.success⟩

theorem Goes.stay (hr : result ≠ .ok true) : Goes O K Q w (w, result) :=
  ⟨.refl, rfl, fun h => absurd h hr⟩

theorem Goes.driveTransition (P : Protocol O w) (h : w.transition = some c) {retry : Bool}
    (hr : retry → K.retry) {next : OperationWorld → OperationWorld × EmbeddedResult Bool}
    (hnext : ∀ v c', Protocol O v → Driven O K .transition w v → v.transition = some c' →
      c'.attempt = .acknowledged → Continues c c' → Goes O K Q v (next v)) :
    Goes O K Q w (O.driveTransition w c retry faults next) := by
  obtain ⟨d, c', hc', hcont, hs⟩ := Driven.drive (σ := .transition) P h hr faults
  unfold Operation.driveTransition
  split
  · next v heq =>
    rw [heq] at d hc' hs
    exact (hnext v c' (P.moves d.moves) d hc' hs hcont).after d.moves d.pendingCompletion
  · next v result hne heq =>
    rw [heq] at d
    exact ⟨d.moves, d.pendingCompletion, fun h => absurd h hne⟩

/-- A captured candidate is retained and driven. -/
theorem Goes.driveCaptured (P : Protocol O w) (ht : w.transition = none) {retry : Bool}
    (hr : retry → K.retry) {next : OperationWorld → OperationWorld × EmbeddedResult Bool}
    (hc : ∀ s, captured = .ok s → w.pendingCompletion = none ∧ Captured w effect s)
    (hok : K.capture w effect)
    (hnext : ∀ v c', Protocol O v → v.transition = some c' → c'.attempt = .acknowledged →
      c'.effect = effect → Goes O K Q v (next v)) :
    Goes O K Q w (O.driveCaptured w effect captured faults next retry) := by
  unfold Operation.driveCaptured
  split
  · exact .stay nofun
  · next s =>
    obtain ⟨hp, hcap⟩ := hc s rfl
    have m : Move O K w (w.retain .transition effect s) := .capture ht hp hok hcap
    refine (Goes.driveTransition (P.move m) rfl hr ?_).after (.single m) rfl
    intro v c' hP _ hc' hack hcont
    exact hnext v c' hP hc' hack hcont.effect

/-- An acknowledged start is part of the last acknowledged record. -/
theorem Protocol.started (P : Protocol O w) (h : w.slot σ = some c) (hack : c.attempt = .acknowledged)
    (he : c.effect = some (.start (O.effects.effectId i))) : Started O w i := by
  obtain ⟨m, hl⟩ := P.last_acknowledged h hack
  obtain ⟨r, hr, hid, hp⟩ := (P.held σ c h).started _ he
  exact ⟨m, c.snapshot, hl, r, hr, hid, hp⟩

/-- Neither a prepared nor a running effect is left once completion is pending. -/
theorem captured_pending (hclosed : w.pendingCompletion.isSome → ¬ EffectLedger.unfinished w.ledger)
    (hc : Captured w effect s) (he : effect.isSome) : w.pendingCompletion = none := by
  by_contra hp
  have hsome : w.pendingCompletion.isSome := isSome_iff_ne_none.2 hp
  refine hclosed hsome ?_
  cases hc with
  | phase => cases he
  | start hc =>
    obtain ⟨-, i, record, hr, -, hph, -⟩ := startCandidate_ok hc
    exact ⟨record, List.mem_of_getElem? hr, by rw [hph]; rintro ⟨⟩⟩
  | outcome hc =>
    simp only [outcomeCandidate, Except.bind_eq_ok, refuseIf_eq_ok, okOr_eq_ok, not_not] at hc
    obtain ⟨_, _, record, hr, _, hph, -⟩ := hc
    exact ⟨record, List.mem_of_find?_eq_some hr, by rw [hph]; rintro ⟨⟩⟩

/-! ## Host effects -/

/-- A start of `effectId` would be captured, at once or after an earlier intent is drained. -/
def startsCapture (w : OperationWorld) (effectId : String) : Bool :=
  match w.transition with
  | none => true
  | some c =>
    match c.effect with
    | some (.start id) => id ≠ effectId
    | _ => false

theorem Goes.effectStart (P : Protocol O w)
    (hclosed : w.pendingCompletion.isSome → ¬ EffectLedger.unfinished w.ledger) {wait : Bool}
    (hok : startsCapture w (O.effects.effectId i) → ∀ v, v.ledger = w.ledger →
      v.authorized = w.authorized → K.capture v (some (.start (O.effects.effectId i)))) :
    Goes O K (fun v => v.transition = none ∧ Started O v i) w
      (O.effectStart w (O.effects.effectId i) wait faults) := by
  have finish : ∀ v c', Protocol O v → v.transition = some c' → c'.attempt = .acknowledged →
      c'.effect = some (.start (O.effects.effectId i)) →
      Goes O K (fun v => v.transition = none ∧ Started O v i) v (consume v, .ok true) := by
    intro v c' hP hc' hack he
    refine ⟨.single (.consume hc' hack (by rw [he]; rfl)), rfl, fun _ => ⟨rfl, ?_⟩⟩
    exact hP.started (σ := .transition) hc' hack he
  have capture : ∀ v, Protocol O v → v.transition = none → v.ledger = w.ledger →
      v.authorized = w.authorized → v.pendingCompletion = w.pendingCompletion →
      startsCapture w (O.effects.effectId i) →
      Goes O K (fun v => v.transition = none ∧ Started O v i) v
        (O.driveCaptured v (some (.start (O.effects.effectId i)))
          (startCandidate v (O.effects.effectId i)) faults (fun w => (consume w, .ok true)) false) := by
    intro v hP ht hl ha hp hs
    refine .driveCaptured hP ht K.observes (fun s hs => ?_) (hok hs v hl ha) finish
    have hcap : Captured v (some (.start (O.effects.effectId i))) s := .start hs
    refine ⟨captured_pending ?_ hcap rfl, hcap⟩
    rw [hl, hp]
    exact hclosed
  unfold Operation.effectStart
  dsimp only
  split
  · next ht => exact capture w P ht rfl rfl rfl (by simp [startsCapture, ht])
  · next c ht =>
    split
    · next id he =>
      refine .driveTransition P ht K.observes fun v c' hP d hc' hack hcont => ?_
      split
      · next hid => exact finish v c' hP hc' hack (by rw [hcont.effect, he, hid])
      · next hid =>
        have m : Move O K v (consume v) := .consume hc' hack (by rw [hcont.effect, he]; rfl)
        exact (capture (consume v) (hP.move m) rfl d.ledger d.authorized d.pendingCompletion
          (by simp [startsCapture, ht, he, hid])).after (.single m) rfl
    · cases wait <;> exact .stay nofun

def outcomeCapture (w : OperationWorld) : Bool :=
  match w.transition with
  | none => true
  | some c =>
    match c.effect with
    | some (.start _) => true
    | _ => false

theorem Moves.effectOutcome (P : Protocol O w)
    (hclosed : w.pendingCompletion.isSome → ¬ EffectLedger.unfinished w.ledger)
    (hok : outcomeCapture w → ∀ v, v.ledger = w.ledger → v.authorized = w.authorized →
      K.capture v (some (.outcome effectId))) : Moves O K w (O.effectOutcome w effectId faults).1 := by
  have capture : ∀ v, Protocol O v → v.transition = none → v.ledger = w.ledger →
      v.authorized = w.authorized → v.pendingCompletion = w.pendingCompletion →
      outcomeCapture w → ∀ s, outcomeCandidate v effectId = .ok s →
      Goes O K (fun _ => True) v (O.driveCaptured v (some (.outcome effectId)) (.ok s) faults
        (fun w => (consume w, .ok true)) false) := by
    intro v hP ht hl ha hp ho s hs
    refine .driveCaptured hP ht K.observes (fun s' hs' => ?_) (hok ho v hl ha) fun u c' _ hc' hack he => ?_
    · cases hs'
      have hcap : Captured v (some (.outcome effectId)) s := .outcome hs
      refine ⟨captured_pending ?_ hcap rfl, hcap⟩
      rw [hl, hp]
      exact hclosed
    · exact ⟨.single (.consume hc' hack (by rw [he]; rfl)), rfl, fun _ => trivial⟩
  unfold Operation.effectOutcome
  dsimp only
  split
  · next ht =>
    split
    · exact .refl
    · next s hs => exact (capture w P ht rfl rfl rfl (by simp [outcomeCapture, ht]) s hs).1
  · next c ht =>
    split
    · next id he =>
      split
      · refine (Goes.driveTransition (Q := fun _ => True) P ht K.observes ?_).1
        intro v c' hP d hc' hack hcont
        exact ⟨.single (.consume hc' hack (by rw [hcont.effect, he]; rfl)), rfl, fun _ => trivial⟩
      · exact .refl
    · next id he =>
      obtain ⟨d, c', hc', hcont, hs⟩ :=
        Driven.drive (σ := .transition) P ht K.observes faults
      split
      · next v heq =>
        rw [heq] at d hc' hs
        have m : Move O K v (consume v) := .consume hc' hs (by rw [hcont.effect, he]; rfl)
        refine d.moves.trans (.head m ?_)
        split
        · exact .refl
        · next s hs =>
          exact (capture (consume v) ((P.moves d.moves).move m) rfl d.ledger d.authorized
            d.pendingCompletion (by simp [outcomeCapture, ht, he]) s hs).1
      · next v result hne heq =>
        rw [heq] at d
        exact d.moves
    · exact .refl

/-! ## Phases -/

theorem Goes.finishAdvance (hc : w.transition = some c) (hack : c.attempt = .acknowledged) :
    Goes O K (fun _ => True) w (finishAdvance w) := by
  unfold Operation.finishAdvance
  split
  · exact ⟨.refl, rfl, fun _ => trivial⟩
  · next c' hc' =>
    cases hc.symm.trans hc'
    split
    · exact ⟨.refl, rfl, fun _ => trivial⟩
    · next he => exact ⟨.single (.consume hc hack (by rw [he]; rfl)), rfl, fun _ => trivial⟩
    · next he => exact ⟨.single (.publishPhase hc hack he), rfl, fun _ => trivial⟩

theorem Goes.driveAdvance (P : Protocol O w)
    (hp : w.transition = none → w.pendingCompletion = none ∧ K.capture w none) {retry : Bool}
    (hr : retry → K.retry) {faults : DriveFaults} :
    Goes O K (fun _ => True) w (O.driveAdvance w phase retry faults) := by
  unfold Operation.driveAdvance
  split
  · next c hc =>
    split
    · exact .stay nofun
    · exact .driveTransition P hc hr fun v c' _ _ hc' hack _ => .finishAdvance hc' hack
  · next ht =>
    obtain ⟨hp, hok⟩ := hp ht
    exact .driveCaptured P ht hr (fun s hs => ⟨hp, .phase hs⟩) hok
      fun v c' _ hc' hack _ => .finishAdvance hc' hack

/-- A blocking caller takes the gate only while no completion is pending. -/
theorem Goes.block (g : Goes O K Q w x) (hp : w.pendingCompletion = none)
    (hQ : ∀ v gate, Q v → Q { v with gate := gate }) : Goes O K Q w (block wait blocked x) where
  moves := g.moves.tail (.gate fun _ => g.pending.trans hp)
  pending := g.pending
  success h := hQ _ _ (g.success h)

/-! ## Completion -/

theorem Goes.driveCompletionCheckpoint (hq : O.backend = .queued) (P : Protocol O w) {retry : Bool}
    (hr : retry → K.retry) {faults : DriveFaults} :
    Goes O K (fun v => v.snapshot = w.snapshot ∧
        ∃ c, v.completion = some c ∧ c.attempt = .acknowledged) w
      (O.driveCompletionCheckpoint w retry faults) := by
  have finish : ∀ v c, Protocol O v → v.completion = some c →
      Goes O K (fun u => u.snapshot = v.snapshot ∧
        ∃ c, u.completion = some c ∧ c.attempt = .acknowledged) v
        (O.drive v .completion c retry faults) := by
    intro v c hP hc
    obtain ⟨d, c', hc', -, hs⟩ := Driven.drive (σ := .completion) hP hc hr faults
    refine ⟨d.moves, d.pendingCompletion, fun h => ⟨d.snapshot, c', hc', ?_⟩⟩
    rw [h] at hs
    exact hs
  unfold Operation.driveCompletionCheckpoint
  split
  · exact .stay nofun
  · next s hs =>
    simp only [hq]
    split
    · next c hc => exact finish w c P hc
    · next hn =>
      have m : Move O K w (w.retain .completion none s) := .retain hs hn
      exact (finish _ _ (P.move m) rfl).after (.single m) rfl

theorem Moves.publishCompletion (hq : O.backend = .queued) :
    Moves O K w (O.publishCompletion w).1 := by
  unfold Operation.publishCompletion
  split
  · exact .refl
  · next hack =>
    split
    · next snapshot hph hp =>
      cases hc : w.completion with
      | none => simp [hq, hc] at hack
      | some c =>
        have hack : c.attempt = .acknowledged := by simpa [hq, hc] using hack
        exact .single (.publishCompletion hc hack hph hp)
    · exact .refl

theorem Moves.driveCompletion (hq : O.backend = .queued) (P : Protocol O w) {retry : Bool}
    (hr : retry → K.retry) {faults : DriveFaults} : Moves O K w (O.driveCompletion w retry faults).1 := by
  have g : Goes O K _ w (O.driveCompletionCheckpoint w retry faults) :=
    .driveCompletionCheckpoint hq P hr
  unfold Operation.driveCompletion
  split
  · next v heq =>
    rw [heq] at g
    exact g.moves.trans (Moves.publishCompletion hq)
  · next v result _ heq =>
    rw [heq] at g
    exact g.moves

/-! ## Calls -/

/-- The effect of the candidate that a call may capture; `some none` is a phase. -/
def captures (O : Operation) (w : OperationWorld) : OperationCall → Option (Option CheckpointEffect)
  | .checkpointStart i _ _ =>
    if w.gate.isNone ∧ startsCapture w (O.effects.effectId i) then
      some (some (.start (O.effects.effectId i))) else none
  | .pollOutcome i _ =>
    if w.gate.isNone ∧ outcomeCapture w then some (some (.outcome (O.effects.effectId i))) else none
  | .advance _ _ _ | .pollAdvance _ _ =>
    if w.gate.isNone ∧ w.transition.isNone then some none else none
  | .resume _ =>
    match w.gate with
    | some (.start i) =>
      if startsCapture w (O.effects.effectId i) then
        some (some (.start (O.effects.effectId i))) else none
    | some (.advance _) => if w.transition.isNone then some none else none
    | none => none
  | _ => none

theorem checkRetry_ok (h : O.checkRetry w = .ok (some c)) :
    w.transition = some c ∧ c.failure.isSome ∧ ∀ id e, c.attempt ≠ .unobservable id e := by
  unfold checkRetry at h
  split at h
  · cases h
  split at h
  · cases h
  split at h
  · cases h
  next d hd =>
    obtain ⟨_, hf, h⟩ := Except.bind_eq_ok.1 h
    split at h
    · cases h
    · next hu =>
      cases h
      exact ⟨hd, by simpa [isSome_iff_ne_none] using hf, hu⟩

def retries : OperationCall → Bool
  | .advance _ _ _ | .retryAdvance _ | .retryCompletion _ _ | .requestCheckpointRetry => true
  | .pollCompletionCheckpoint retry _ | .pollCompletion retry _ => retry
  | _ => false

section
variable (hq : O.backend = .queued) (P : Protocol O w)
  (hclosed : w.pendingCompletion.isSome → ¬ EffectLedger.unfinished w.ledger)
include hq P hclosed

theorem Moves.checkpointStart (hp : w.pendingCompletion = none)
    (hok : startsCapture w (O.effects.effectId i) → ∀ v, v.ledger = w.ledger →
      v.authorized = w.authorized → K.capture v (some (.start (O.effects.effectId i)))) :
    Moves O K w (O.checkpointStart w i wait faults).1 := by
  have g : Goes O K _ w
      (block wait (.start i) (O.effectStart w (O.effects.effectId i) wait faults)) :=
    (Goes.effectStart P hclosed hok).block hp fun v gate h => h
  simp only [Operation.checkpointStart, hq, Operation.authorize]
  split
  · next h =>
    obtain ⟨ht, hs⟩ := g.success h
    exact g.moves.tail (.authorize ht hs)
  · exact g.moves

theorem Moves.resume {faults : DriveFaults}
    (hok : ∀ v effect, v.ledger = w.ledger → v.authorized = w.authorized →
      O.captures w (.resume faults) = some effect → K.capture v effect) :
    Moves O K w (O.resume w faults) := by
  have m : Move O K w { w with gate := none } := .gate nofun
  have P' := P.move m
  unfold Operation.resume
  split
  · exact .refl
  · next phase hg =>
    have hp : w.pendingCompletion = none := P.gate (by rw [hg]; rfl)
    refine .head m (Goes.block (Goes.driveAdvance P' (fun ht => ⟨hp, ?_⟩) K.observes) hp fun _ _ h => h).moves
    exact hok _ _ rfl rfl (by simp [captures, hg, show w.transition = none from ht])
  · next i hg =>
    have hp : w.pendingCompletion = none := P.gate (by rw [hg]; rfl)
    refine .head m (Moves.checkpointStart hq P' hclosed hp fun hs v hl ha => ?_)
    refine hok _ _ hl ha ?_
    have hs : startsCapture w (O.effects.effectId i) := hs
    simp [captures, hg, hs]

omit hq P hclosed in
theorem Moves.setLedger {x : EmbeddedResult LedgerState}
    (h : ∀ ledger, x = .ok ledger → LedgerMove O w ledger) : Moves O K w (setLedger w x) := by
  unfold Operation.setLedger
  split
  · next ledger => exact .single (.ledger (h ledger rfl))
  · exact .refl

/-- Every call is a sequence of moves; the states that capture a candidate have the ledger and the
authorized effects that the call found. -/
theorem Moves.perform (call : OperationCall)
    (hok : ∀ v effect, v.ledger = w.ledger → v.authorized = w.authorized →
      O.captures w call = some effect → K.capture v effect)
    (hr : retries call → K.retry) (hw : ∀ c, call = .writer c → K.writer c) :
    Moves O K w (O.perform w call) := by
  have alive : ∀ {i}, attemptAlive w i → w.pendingCompletion = none := by
    intro i hi
    by_contra hp
    refine hclosed (isSome_iff_ne_none.2 hp) ?_
    unfold attemptAlive at hi
    cases hr : w.ledger.records[i]? with
    | none => simp [hr] at hi
    | some record => exact ⟨record, List.mem_of_getElem? hr, by simpa [hr] using hi⟩
  cases call with
  | writer call =>
    simp only [Operation.perform]
    split
    · next hf => exact .single (.writer hf (hw call rfl))
    · exact .refl
  | cancel =>
    simp only [Operation.perform, Operation.cancel]
    split
    · exact .refl
    · exact .single .cancel
  | reserveEffect stage caller registrationId name version =>
    exact Moves.setLedger fun ledger h => .reserve h
  | bindRequest i requestId =>
    simp only [Operation.perform]
    split
    · exact Moves.setLedger fun ledger h => .bind h
    · exact .refl
  | checkpointStart i wait faults =>
    simp only [Operation.perform]
    split
    · next hg =>
      refine Moves.checkpointStart hq P hclosed (alive hg.1) fun hs v hl ha => ?_
      exact hok _ _ hl ha (by simp [captures, hs, isNone_iff_eq_none.1 hg.2])
    · exact .refl
  | beginEffect i =>
    simp only [Operation.perform]
    split
    · next h => exact Moves.setLedger fun ledger hl => .begin h.2 hl
    · exact .refl
  | observe i effects =>
    simp only [Operation.perform]
    split
    · next h => exact .single (.ledger (.observe effects h))
    · exact .refl
  | pollOutcome i faults =>
    simp only [Operation.perform, Operation.pollOutcome, hq]
    split
    · split
      · exact .refl
      · next hg =>
        refine Moves.effectOutcome P hclosed fun ho v hl ha => ?_
        exact hok _ _ hl ha (by simp [captures, ho, not_isSome_iff_eq_none.1 hg])
    · exact .refl
  | dropAttempt i => exact .single (.ledger (.drop i))
  | advance phase faults transaction =>
    simp only [Operation.perform, Operation.advance, hq]
    split
    · next hg =>
      split
      · exact .refl
      · next hp =>
        have hp : w.pendingCompletion = none := not_isSome_iff_eq_none.1 hp
        refine (Goes.block (Goes.driveAdvance P (fun ht => ⟨hp, ?_⟩) fun _ => hr rfl) hp fun _ _ h => h).moves
        exact hok _ _ rfl rfl (by simp [captures, ht, isNone_iff_eq_none.1 hg])
    · exact .refl
  | pollAdvance phase faults =>
    simp only [Operation.perform, Operation.pollAdvance, hq]
    split
    · exact .refl
    · next hp =>
      split
      · exact .refl
      · next hg =>
        refine (Goes.driveAdvance P (fun ht => ⟨not_isSome_iff_eq_none.1 hp, ?_⟩) K.observes).moves
        exact hok _ _ rfl rfl (by simp [captures, ht, not_isSome_iff_eq_none.1 hg])
  | retryAdvance faults =>
    simp only [Operation.perform, Operation.retryAdvance]
    split
    · exact .refl
    · split
      · exact .refl
      · next c hc =>
        exact (Goes.driveAdvance P (fun ht => absurd (hc.symm.trans ht) nofun) fun _ => hr rfl).moves
  | prepareFinalization export_ business =>
    simp only [Operation.perform, Operation.prepareFinalization]
    split
    · exact .refl
    · next snapshot ledger count hc =>
      simp only [retainFinalization, hq]
      exact .single (.finalize hc)
  | pollFinalization faults =>
    simp only [Operation.perform, Operation.pollFinalization]
    split
    · exact .refl
    · split
      · exact .refl
      · split
        · exact .refl
        · next c hc =>
          split
          · exact (Goes.driveAdvance P (fun ht => absurd (hc.symm.trans ht) nofun) K.observes).moves
          · exact .refl
  | takeFinalizationControl =>
    simp only [Operation.perform, Operation.takeFinalizationControl]
    split
    · exact .refl
    · next ownership hc => exact .single (.issue hc)
  | prepareFinalizationOutcome result =>
    simp only [Operation.perform, Operation.prepareFinalizationOutcome]
    split
    · exact .refl
    · next ownership ledger records hc =>
      simp only [retainFinalization, hq]
      exact .single (.close hc)
  | prepareCompletion result effects =>
    simp only [Operation.perform, Operation.prepareCompletion]
    split
    · exact .refl
    · next terminal ledger records hc => exact .single (.complete hc)
  | pollCompletionCheckpoint retry faults => exact (Goes.driveCompletionCheckpoint hq P hr).moves
  | publishCompletion => exact Moves.publishCompletion hq
  | retryCompletion faults transaction =>
    simp only [Operation.perform, Operation.retryCompletion, hq]
    exact Moves.driveCompletion hq P fun _ => hr rfl
  | pollCompletion retry faults =>
    simp only [Operation.perform, Operation.pollCompletion, hq]
    exact Moves.driveCompletion hq P hr
  | requestCheckpointRetry =>
    simp only [Operation.perform, Operation.requestCheckpointRetry]
    split
    · exact .refl
    · exact .refl
    · next c hc =>
      split
      · exact .refl
      · next hw =>
        obtain ⟨ht, hf, hu⟩ := checkRetry_ok hc
        exact .single (.progress (σ := .transition) ht (.request (hr rfl) hf (not_not.1 hw) hu))
  | resume faults => exact Moves.resume hq P hclosed hok

end

end Operation

end LuaSkills.Embedded
