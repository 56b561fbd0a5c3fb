import Mathlib.Logic.Relation
import LuaSkills.Embedded.Operation.Contents

/-!
# The closing stage of an operation

What finalization promises depends on five components of an operation: its public snapshot, the
candidate in the gated slot, the retained terminal snapshot, the ownership of the closing budget and
the effect ledger. `ClosingStep` says what can happen to them, whatever the history of the operation
is. The finalization evidence is written twice, when the stage begins and when its outcome is recorded;
along every run it otherwise stays as it is, and so do the records of completed effects.
-/

namespace LuaSkills.Embedded

open EffectLedger

/-- The result that two stages show together: a business failure is primary, a closing failure turns a
business success into a failure. -/
def OperationOutcome.project : OperationOutcome → OperationOutcome → EmbeddedResult Json
  | .failed error, _ => .error error
  | .succeeded _, .failed error => .error error
  | .succeeded value, .succeeded _ => .ok value

theorem OperationOutcome.project_eq (business closing : OperationOutcome) :
    business.project closing =
      business.result.bind fun value => closing.result.map fun _ => value := by
  cases business <;> cases closing <;> rfl

/-- The terminal columns show both outcomes. -/
def OperationSnapshot.Concluded (s : OperationSnapshot) : Prop :=
  ∀ f ∈ s.finalization, ∃ closing ∈ f.outcome, s.projects (f.business.project closing)

structure ClosingState where
  snapshot : OperationSnapshot
  retained : Option OperationSnapshot
  pendingCompletion : Option OperationSnapshot
  finalization : Option FinalizationOwnership
  ledger : LedgerState

def ClosingState.evidence (x : ClosingState) : Option OperationFinalization :=
  (x.retained.getD x.snapshot).finalization

namespace Operation

structure Touches (l l' : LedgerState) : Prop where
  stage : l'.stage = l.stage
  isSealed : l'.isSealed = l.isSealed
  completed : ∀ (i : ℕ) r, l.records[i]? = some r → r.phase = .completed → l'.records[i]? = some r
  length_le : l.records.length ≤ l'.records.length
  closed : l.isSealed → l'.records.length = l.records.length

/-- The candidate `s` shows no result that `x` does not show. -/
structure Carries (x : ClosingState) (s : OperationSnapshot) : Prop where
  live : x.snapshot.phase.isTerminal = false
  nonterminal : s.phase.isTerminal = false
  value : s.value = x.snapshot.value
  error : s.error = x.snapshot.error

inductive ClosingStep (x : ClosingState) : ClosingState → Prop where
  | touch {ledger : LedgerState} : Touches x.ledger ledger → ClosingStep x { x with ledger }
  | capture {s : OperationSnapshot} : x.retained = none → x.pendingCompletion = none → Carries x s →
    s.finalization = x.snapshot.finalization → ClosingStep x { x with retained := some s }
  | discard {s : OperationSnapshot} : x.retained = some s →
    s.finalization = x.snapshot.finalization → ClosingStep x { x with retained := none }
  | publish {s : OperationSnapshot} : x.retained = some s →
    ClosingStep x { x with snapshot := s, retained := none }
  | finalize {s : OperationSnapshot} {ledger : LedgerState} {export_ : String}
    {business : OperationOutcome} {count : ℕ} : x.finalization = none → x.retained = none →
    x.pendingCompletion = none → beginFinalization x.ledger = .ok (ledger, count) →
    Carries x s → s.finalization = some ⟨export_, business, count, none⟩ →
    ClosingStep x { x with ledger, finalization := some ⟨false, false⟩, retained := some s }
  | issue {o : FinalizationOwnership} : x.finalization = some o → x.retained = none →
    x.snapshot.finalization.isSome →
    ClosingStep x { x with finalization := some { o with controlIssued := true } }
  | close {o : FinalizationOwnership} {s : OperationSnapshot} {ledger : LedgerState}
    {records : List HostEffectRecord} {outcome : OperationOutcome} : x.finalization = some o →
    o.outcomePrepared = false → x.retained = none → x.pendingCompletion = none →
    sealRecords x.ledger = .ok (ledger, records) → Carries x s →
    s.finalization = x.snapshot.finalization.map (fun f => { f with outcome := some outcome }) →
    ClosingStep x
      { x with ledger, finalization := some { o with outcomePrepared := true }, retained := some s }
  | complete {s : OperationSnapshot} {ledger : LedgerState} {records : List HostEffectRecord} :
    x.retained = none → x.pendingCompletion = none →
    sealRecords x.ledger = .ok (ledger, records) → s.phase.isTerminal →
    s.finalization = x.snapshot.finalization →
    (x.snapshot.value = none ∧ x.snapshot.error = none → s.Concluded) →
    x.snapshot.phase.isTerminal = false →
    ClosingStep x { x with ledger, pendingCompletion := some s }
  | refresh {s : OperationSnapshot} (cancelled : Bool) : x.pendingCompletion = some s →
    ClosingStep x
      { x with pendingCompletion := some { s with cancellationRequested := cancelled } }
  | finish {s : OperationSnapshot} : x.pendingCompletion = some s →
    ClosingStep x { x with snapshot := s, pendingCompletion := none }

abbrev ClosingSteps := Relation.ReflTransGen ClosingStep

/-- Later evidence: the intent stays, and so does a recorded outcome. -/
def Later (f f' : OperationFinalization) : Prop :=
  f' = { f with outcome := f'.outcome } ∧ (f.outcome.isSome → f' = f)

theorem Later.refl (f : OperationFinalization) : Later f f := ⟨rfl, fun _ => rfl⟩

theorem Later.trans (h : Later f f') (h' : Later f' f'') : Later f f'' := by
  refine ⟨?_, fun hf => ?_⟩
  · rw [h'.1, h.1]
  · cases h.2 hf
    exact h'.2 hf

def FrozenBusiness (l : LedgerState) (f : OperationFinalization) : Prop :=
  f.businessEffectCount ≤ l.records.length ∧
    ∀ (i : ℕ) r, i < f.businessEffectCount → l.records[i]? = some r → r.phase = .completed

structure Closing (x : ClosingState) : Prop where
  before : x.finalization = none → x.evidence = none
  begun : x.finalization.isSome → x.ledger.stage = .finalization ∧ x.evidence.isSome
  frozen : ∀ f ∈ x.evidence, FrozenBusiness x.ledger f
  outcome : ∀ o ∈ x.finalization, ∀ f ∈ x.evidence, f.outcome.isSome = o.outcomePrepared
  closed : x.ledger.isSealed → ¬ unfinished x.ledger
  older : ∀ f ∈ x.snapshot.finalization, ∃ f' ∈ x.evidence, Later f f'
  pending : ∀ s ∈ x.pendingCompletion, x.retained = none ∧
    s.finalization = x.snapshot.finalization ∧ s.phase.isTerminal ∧ s.Concluded
  retained : ∀ s ∈ x.retained, Carries x s
  plain : x.snapshot.phase.isTerminal = false → x.snapshot.value = none ∧ x.snapshot.error = none
  concluded : x.snapshot.phase.isTerminal → x.snapshot.Concluded

structure Onward (x x' : ClosingState) : Prop where
  evidence : ∀ f ∈ x.evidence, ∃ f' ∈ x'.evidence, Later f f'
  ownership : ∀ o ∈ x.finalization, ∃ o' ∈ x'.finalization,
    (o.controlIssued → o'.controlIssued) ∧ (o.outcomePrepared → o'.outcomePrepared)
  records : ∀ (i : ℕ) r, x.ledger.records[i]? = some r → r.phase = .completed →
    x'.ledger.records[i]? = some r
  isSealed : x.ledger.isSealed →
    x'.ledger.isSealed ∧ x'.ledger.records.length = x.ledger.records.length

variable {x x' x'' : ClosingState} {l l' : LedgerState} {s : OperationSnapshot}

theorem Onward.refl (x : ClosingState) : Onward x x where
  evidence f hf := ⟨f, hf, .refl f⟩
  ownership o ho := ⟨o, ho, fun h => h, fun h => h⟩
  records _ _ h _ := h
  isSealed h := ⟨h, rfl⟩

theorem Onward.trans (h : Onward x x') (h' : Onward x' x'') : Onward x x'' where
  evidence f hf := by
    obtain ⟨f', hf', hl⟩ := h.evidence f hf
    obtain ⟨f'', hf'', hl'⟩ := h'.evidence f' hf'
    exact ⟨f'', hf'', hl.trans hl'⟩
  ownership o ho := by
    obtain ⟨o', ho', hc, hp⟩ := h.ownership o ho
    obtain ⟨o'', ho'', hc', hp'⟩ := h'.ownership o' ho'
    exact ⟨o'', ho'', fun h => hc' (hc h), fun h => hp' (hp h)⟩
  records i r hr hp := h'.records i r (h.records i r hr hp) hp
  isSealed hs := by
    obtain ⟨hs', hl⟩ := h.isSealed hs
    obtain ⟨hs'', hl'⟩ := h'.isSealed hs'
    exact ⟨hs'', hl'.trans hl⟩

/-! ## The ledger -/

theorem Touches.of_set {r₁ : HostEffectRecord} (hr : l.records[i]? = some r₀) (hp : r₀.phase ≠ .completed) :
    Touches l { l with bytes, records := l.records.set i r₁ } where
  stage := rfl
  isSealed := rfl
  completed j r hj hc := by
    have hij : i ≠ j := by
      rintro rfl
      cases hr.symm.trans hj
      exact hp hc
    exact (List.getElem?_set_ne hij).trans hj
  length_le := Nat.le_of_eq List.length_set.symm
  closed _ := List.length_set

theorem Touches.of_modify {g : HostEffectRecord → HostEffectRecord}
    (hg : ∀ r, l.records[i]? = some r → r.phase = .completed → g r = r) :
    Touches l { l with records := l.records.modify i g } where
  stage := rfl
  isSealed := rfl
  completed j r hj hc := by
    change (l.records.modify i g)[j]? = some r
    rw [List.getElem?_modify, hj]
    by_cases hij : i = j
    · subst hij
      simp [hg r hj hc]
    · simp [hij]
  length_le := Nat.le_of_eq (List.length_modify ..).symm
  closed _ := List.length_modify ..

/-- The calls of attempts never change a completed record. -/
theorem LedgerMove.touches (m : LedgerMove O w l') : Touches w.ledger l' := by
  cases m with
  | reserve h =>
    obtain ⟨bytes, rfl, hs, -⟩ := reserveEffect_ok h
    refine ⟨rfl, rfl, fun i r hr _ => ?_, ?_, fun h => absurd h (by simp [hs])⟩
    · exact WriterWorld.getElem?_prefix_some (List.prefix_append _ _) hr
    · simp
  | bind h =>
    obtain ⟨bytes, record, hr, hp, rfl⟩ := bindRequest_ok h
    exact .of_set hr (by rw [hp]; nofun)
  | begin _ h =>
    obtain ⟨record, hr, hp, rfl⟩ := beginEffect_ok h
    exact .of_set hr (by rw [hp]; nofun)
  | observe effects h =>
    refine .of_modify fun r hr hc => ?_
    simp [attemptAlive, hr, hc] at h
  | drop i =>
    refine .of_modify fun r _ hc => ?_
    rw [← hc]

theorem Touches.frozen (t : Touches l l') (h : FrozenBusiness l f) : FrozenBusiness l' f := by
  refine ⟨h.1.trans t.length_le, fun i r' hi hr' => ?_⟩
  have hr := List.getElem?_eq_getElem (hi.trans_le h.1)
  have hp := h.2 i _ hi hr
  cases hr'.symm.trans (t.completed i _ hr hp)
  exact hp

theorem Touches.closed' (t : Touches l l') (hs : l.isSealed) (h : ¬ unfinished l) :
    ¬ unfinished l' := by
  refine not_unfinished.2 fun i r' hr' => ?_
  have hlt : i < l.records.length := t.closed hs ▸ (List.getElem?_eq_some_iff.1 hr').1
  have hr := List.getElem?_eq_getElem hlt
  have hp := not_unfinished.1 h i _ hr
  cases hr'.symm.trans (t.completed i _ hr hp)
  exact hp

/-! ## One step -/

theorem evidence_of_none (h : x.retained = none) : x.evidence = x.snapshot.finalization := by
  simp [ClosingState.evidence, h]

theorem evidence_of_some (h : x.retained = some s) : x.evidence = s.finalization := by
  simp [ClosingState.evidence, h]

theorem Onward.of_evidence (he : x'.evidence = x.evidence) (hf : x'.finalization = x.finalization)
    (hl : x'.ledger = x.ledger) : Onward x x' where
  evidence f h := ⟨f, he ▸ h, .refl f⟩
  ownership o h := ⟨o, hf ▸ h, fun h => h, fun h => h⟩
  records i r hr _ := hl ▸ hr
  isSealed h := ⟨hl ▸ h, by rw [hl]⟩

theorem Closing.onward (C : Closing x) (h : ClosingStep x x') : Onward x x' := by
  cases h with
  | touch t =>
    exact ⟨fun f hf => ⟨f, hf, .refl f⟩, fun o ho => ⟨o, ho, fun h => h, fun h => h⟩, t.completed,
      fun h => ⟨t.isSealed.trans h, t.closed h⟩⟩
  | capture hr _ _ hf => exact .of_evidence (hf.trans (evidence_of_none hr).symm) rfl rfl
  | discard hr hf => exact .of_evidence (hf.symm.trans (evidence_of_some hr).symm) rfl rfl
  | publish hr => exact .of_evidence (evidence_of_some hr).symm rfl rfl
  | finalize hn _ _ hl _ _ =>
    obtain ⟨-, -, rfl⟩ := beginFinalization_ok hl
    refine ⟨fun f hf => ?_, fun o ho => ?_, fun _ _ h _ => h, fun h => ⟨h, rfl⟩⟩
    · rw [C.before hn] at hf
      cases hf
    · rw [hn] at ho
      cases ho
  | @issue o hf _ _ =>
    refine ⟨fun f hf => ⟨f, hf, .refl f⟩, fun o' ho => ?_, fun _ _ h _ => h, fun h => ⟨h, rfl⟩⟩
    cases hf.symm.trans ho
    exact ⟨_, rfl, fun _ => rfl, fun h => h⟩
  | @close o s _ _ outcome hf hp hr _ hl _ hs =>
    obtain ⟨-, -, rfl⟩ := sealRecords_ok hl
    refine ⟨fun f h => ?_, fun o' ho => ?_, fun _ _ h _ => h, fun _ => ⟨rfl, rfl⟩⟩
    · have hnone : f.outcome = none := by
        have := C.outcome o hf f h
        rw [hp] at this
        simpa using this
      rw [evidence_of_none hr] at h
      refine ⟨{ f with outcome := some outcome }, ?_, rfl, fun h => ?_⟩
      · change s.finalization = _
        rw [hs, Option.mem_def.1 h]
        rfl
      · rw [hnone] at h
        cases h
    · cases hf.symm.trans ho
      exact ⟨_, rfl, fun h => h, fun _ => rfl⟩
  | complete _ _ hl =>
    obtain ⟨-, -, rfl⟩ := sealRecords_ok hl
    exact ⟨fun f hf => ⟨f, hf, .refl f⟩, fun o ho => ⟨o, ho, fun h => h, fun h => h⟩,
      fun _ _ h _ => h, fun _ => ⟨rfl, rfl⟩⟩
  | refresh => exact .of_evidence rfl rfl rfl
  | finish hs =>
    obtain ⟨hr, hf, -, -⟩ := C.pending _ hs
    refine .of_evidence ?_ rfl rfl
    rw [evidence_of_none hr, ← hf]
    exact evidence_of_none hr

theorem Carries.of_snapshot (c : Carries x s) (h : x'.snapshot = x.snapshot) : Carries x' s :=
  ⟨h ▸ c.live, c.nonterminal, h ▸ c.value, h ▸ c.error⟩

theorem Closing.touch (C : Closing x) (t : Touches x.ledger l) :
    Closing { x with ledger := l } := { C with
  begun h := ⟨t.stage.trans (C.begun h).1, (C.begun h).2⟩
  frozen f hf := t.frozen (C.frozen f hf)
  closed h := by
    have hs : x.ledger.isSealed := t.isSealed ▸ h
    exact t.closed' hs (C.closed hs)
  retained s hs := (C.retained s hs).of_snapshot rfl }

theorem Closing.of_evidence (C : Closing x) (he : x'.evidence = x.evidence)
    (hf : x'.finalization = x.finalization) (hl : x'.ledger = x.ledger)
    (older : ∀ f ∈ x'.snapshot.finalization, ∃ f' ∈ x.evidence, Later f f')
    (pending : ∀ s ∈ x'.pendingCompletion, x'.retained = none ∧
      s.finalization = x'.snapshot.finalization ∧ s.phase.isTerminal ∧ s.Concluded)
    (retained : ∀ s ∈ x'.retained, Carries x' s)
    (plain : x'.snapshot.phase.isTerminal = false →
      x'.snapshot.value = none ∧ x'.snapshot.error = none)
    (concluded : x'.snapshot.phase.isTerminal → x'.snapshot.Concluded) : Closing x' where
  before h := he ▸ C.before (hf ▸ h)
  begun h := by
    rw [hl, he]
    exact C.begun (hf ▸ h)
  frozen f h := hl ▸ C.frozen f (he ▸ h)
  outcome o ho f h := C.outcome o (hf ▸ ho) f (he ▸ h)
  closed h := hl ▸ C.closed (hl ▸ h)
  older := he ▸ older
  pending := pending
  retained := retained
  plain := plain
  concluded := concluded

theorem Closing.finalize (C : Closing x) (hn : x.finalization = none) (hp : x.pendingCompletion = none)
    (hl : beginFinalization x.ledger = .ok (l, count)) (c : Carries x s)
    (hs : s.finalization = some ⟨export_, business, count, none⟩) :
    Closing { x with ledger := l, finalization := some ⟨false, false⟩, retained := some s } := by
  obtain ⟨hu, rfl, rfl⟩ := beginFinalization_ok hl
  have hev : ∀ {f}, f ∈ s.finalization → f = ⟨export_, business, x.ledger.records.length, none⟩ := by
    intro f hf
    rw [hs] at hf
    exact (Option.some.inj hf).symm
  refine ⟨nofun, fun _ => ⟨rfl, by simp [ClosingState.evidence, hs]⟩, ?_, ?_, C.closed, ?_, ?_, ?_,
    C.plain, C.concluded⟩
  · intro f hf
    cases hev hf
    exact ⟨Nat.le_refl _, fun i r _ hr => not_unfinished.1 hu i r hr⟩
  · rintro o ⟨⟩ f hf
    cases hev hf
    rfl
  · intro f hf
    obtain ⟨f', hf', -⟩ := C.older f hf
    rw [C.before hn] at hf'
    cases hf'
  · intro s' hs'
    rw [hp] at hs'
    cases hs'
  · rintro s' ⟨⟩
    exact c.of_snapshot rfl

theorem Closing.close (C : Closing x) {outcome : OperationOutcome} (ho : x.finalization = some o)
    (hprep : o.outcomePrepared = false) (hr : x.retained = none) (hp : x.pendingCompletion = none)
    (hl : sealRecords x.ledger = .ok (l, records)) (c : Carries x s)
    (hs : s.finalization = x.snapshot.finalization.map fun f => { f with outcome := some outcome }) :
    Closing { x with
      ledger := l, finalization := some { o with outcomePrepared := true }, retained := some s } := by
  have onward := C.onward (.close ho hprep hr hp hl c hs)
  obtain ⟨hclosed, rfl, rfl⟩ := sealRecords_ok hl
  obtain ⟨hstage, hsome⟩ := C.begun (by rw [ho]; rfl)
  rw [evidence_of_none hr] at hsome
  have hev : ∀ f ∈ s.finalization, ∃ f₀ ∈ x.evidence, f = { f₀ with outcome := some outcome } := by
    intro f hf
    rw [hs] at hf
    obtain ⟨f₀, hf₀, rfl⟩ := Option.map_eq_some_iff.1 hf
    exact ⟨f₀, (evidence_of_none hr).trans hf₀, rfl⟩
  refine ⟨nofun, fun _ => ⟨hstage, ?_⟩, ?_, ?_, fun _ => hclosed.2, ?_, ?_, ?_, C.plain, C.concluded⟩
  · change s.finalization.isSome
    rw [hs]
    simpa using hsome
  · intro f hf
    obtain ⟨f₀, hf₀, rfl⟩ := hev f hf
    exact C.frozen f₀ hf₀
  · rintro o' ⟨⟩ f hf
    obtain ⟨f₀, -, rfl⟩ := hev f hf
    rfl
  · intro f hf
    exact onward.evidence f ((evidence_of_none hr).trans hf)
  · intro s' hs'
    rw [hp] at hs'
    cases hs'
  · rintro s' ⟨⟩
    exact c.of_snapshot rfl

theorem Closing.complete (C : Closing x) (hr : x.retained = none)
    (hl : sealRecords x.ledger = .ok (l, records)) (ht : s.phase.isTerminal)
    (hf : s.finalization = x.snapshot.finalization) (hc : s.Concluded) :
    Closing { x with ledger := l, pendingCompletion := some s } := by
  obtain ⟨hclosed, rfl, rfl⟩ := sealRecords_ok hl
  refine ⟨C.before, C.begun, C.frozen, C.outcome, fun _ => hclosed.2, C.older, ?_, ?_, C.plain,
    C.concluded⟩
  · rintro s' ⟨⟩
    exact ⟨hr, hf, ht, hc⟩
  · intro s' hs'
    rw [hr] at hs'
    cases hs'

theorem Closing.step (C : Closing x) (h : ClosingStep x x') : Closing x' := by
  cases h with
  | touch t => exact C.touch t
  | @capture s hr hp c hf =>
    refine C.of_evidence (hf.trans (evidence_of_none hr).symm) rfl rfl C.older ?_ ?_ C.plain C.concluded
    · intro s' hs'
      rw [hp] at hs'
      cases hs'
    · rintro s' ⟨⟩
      exact c.of_snapshot rfl
  | discard hr hf =>
    refine C.of_evidence (hf.symm.trans (evidence_of_some hr).symm) rfl rfl C.older ?_ ?_ C.plain
      C.concluded
    · intro s' hs'
      exact ⟨rfl, (C.pending s' hs').2⟩
    · rintro s' ⟨⟩
  | @publish s hr =>
    obtain ⟨hlive, hopen, hv, he⟩ := C.retained s hr
    refine C.of_evidence (evidence_of_some hr).symm rfl rfl ?_ ?_ ?_ ?_ ?_
    · intro f hf
      exact ⟨f, (evidence_of_some hr).trans hf, .refl f⟩
    · intro s' hs'
      exact absurd ((C.pending s' hs').1.symm.trans hr) nofun
    · rintro s' ⟨⟩
    · intro _
      exact ⟨hv.trans (C.plain hlive).1, he.trans (C.plain hlive).2⟩
    · intro ht
      exact absurd (hopen.symm.trans ht) nofun
  | finalize hn hr hp hl c hs => exact C.finalize hn hp hl c hs
  | @issue o ho hr hs =>
    refine ⟨nofun, fun _ => C.begun (by rw [ho]; rfl), C.frozen, ?_, C.closed, C.older, C.pending,
      fun s hs => (C.retained s hs).of_snapshot rfl, C.plain, C.concluded⟩
    rintro o' ⟨⟩ f hf
    exact C.outcome o ho f hf
  | close ho hprep hr hp hl c hs => exact C.close ho hprep hr hp hl c hs
  | complete hr hp hl ht hf hc hlive => exact C.complete hr hl ht hf (hc (C.plain hlive))
  | @refresh s cancelled hs =>
    refine C.of_evidence rfl rfl rfl C.older ?_ (fun s hs => (C.retained s hs).of_snapshot rfl)
      C.plain C.concluded
    rintro s' ⟨⟩
    obtain ⟨hr, hf, ht, hc⟩ := C.pending s hs
    exact ⟨hr, hf, ht, hc⟩
  | @finish s hs =>
    obtain ⟨hr, hf, ht, hc⟩ := C.pending s hs
    have he : x.evidence = s.finalization := (evidence_of_none hr).trans hf.symm
    refine C.of_evidence ?_ rfl rfl ?_ ?_ ?_ ?_ fun _ => hc
    · rw [he]
      exact evidence_of_none hr
    · intro f h
      exact ⟨f, he.trans h, .refl f⟩
    · rintro s' ⟨⟩
    · intro s' hs'
      exact absurd (hr.symm.trans hs') nofun
    · intro h
      exact absurd (h.symm.trans ht) nofun

/-- Along every run the promises hold and what they froze stays. -/
theorem Closing.steps (C : Closing x) (h : ClosingSteps x x') : Closing x' ∧ Onward x x' := by
  induction h with
  | refl => exact ⟨C, .refl x⟩
  | tail _ hs ih => exact ⟨ih.1.step hs, ih.2.trans (ih.1.onward hs)⟩

end Operation

end LuaSkills.Embedded
