import LuaSkills.Embedded.Operation.Protocol

/-!
# The contents of candidates

The journal validates again what the owner guarantees by construction. `Fits` says of a snapshot that
it passes the checks of a write and agrees with the live ledger: its business effects are completed
and a closing outcome exists only over a sealed ledger without handlers. Each of the six builders of
candidates produces a fitting snapshot that keeps the finalization evidence of the public one.
-/

namespace LuaSkills.Embedded

open List Except EffectLedger

namespace Operation

/-- Admission is closed and every handler is gone. -/
def Closed (l : LedgerState) : Prop := l.isSealed ∧ ¬ unfinished l

structure Frozen (l : LedgerState) (f : OperationFinalization) : Prop where
  named : unnamed f.export_ = false
  count : f.businessEffectCount ≤ l.records.length
  business : ∀ (i : ℕ) (r : HostEffectRecord), i < f.businessEffectCount → l.records[i]? = some r → r.phase = .completed
  closed : f.outcome.isSome → Closed l

def Owned (O : Operation) (records : List HostEffectRecord) : Prop :=
  ∀ r ∈ records, r.caller.validate O.runtimeId = .ok () ∧ (∀ a ∈ O.context.caller, a = r.caller) ∧
    r.caller.operationId = O.id

/-- A snapshot of the operation that the journal accepts, over a live ledger. -/
structure Fits (O : Operation) (l : LedgerState) (s : OperationSnapshot) : Prop where
  context : s.context = O.context
  operationId : s.operationId = O.id
  accepted : validateCallers O.runtimeId s = .ok ()
  frozen : ∀ f ∈ s.finalization, Frozen l f ∧ (s.phase = .cleaning ∨ s.phase.isTerminal)
  plain : s.phase.isTerminal = false → s.value = none ∧ s.error = none

/-! ## The ledger over time -/

structure Evolves (l l' : LedgerState) : Prop where
  kept : ∀ (i : ℕ) (r : HostEffectRecord), l.records[i]? = some r →
    ∃ r' : HostEffectRecord, l'.records[i]? = some r' ∧ r'.caller = r.caller ∧
      r'.effectId = r.effectId ∧ (r.phase = .completed → r'.phase = .completed)
  added : l.isSealed → l'.isSealed ∧ l'.records.length = l.records.length

variable {O : Operation} {l l' : LedgerState} {f : OperationFinalization} {s : OperationSnapshot}
  {w v : OperationWorld} {i : ℕ}

theorem Evolves.length_le (E : Evolves l l') : l.records.length ≤ l'.records.length := by
  by_contra h
  have hlt : l'.records.length < l.records.length := Nat.not_le.1 h
  obtain ⟨r', hr', -⟩ := E.kept _ _ (getElem?_eq_getElem hlt)
  rw [getElem?_eq_none (Nat.le_refl _)] at hr'
  cases hr'

theorem not_unfinished : ¬ unfinished l ↔
    ∀ (i : ℕ) (r : HostEffectRecord), l.records[i]? = some r → r.phase = .completed := by
  constructor
  · intro h i r hr
    by_contra hp
    exact h ⟨r, mem_of_getElem? hr, hp⟩
  · rintro h ⟨r, hr, hp⟩
    obtain ⟨i, hi⟩ := mem_iff_getElem?.1 hr
    exact hp (h i r hi)

theorem Evolves.closed (E : Evolves l l') (h : Closed l) : Closed l' := by
  obtain ⟨hs, hl⟩ := E.added h.1
  refine ⟨hs, not_unfinished.2 fun i r' hr' => ?_⟩
  have hlt : i < l.records.length := hl ▸ (List.getElem?_eq_some_iff.1 hr').1
  have hr := getElem?_eq_getElem hlt
  obtain ⟨r'', hr'', -, -, hp⟩ := E.kept i _ hr
  cases hr'.symm.trans hr''
  exact hp (not_unfinished.1 h.2 i _ hr)

theorem Evolves.frozen (E : Evolves l l') (h : Frozen l f) : Frozen l' f where
  named := h.named
  count := h.count.trans E.length_le
  business i r' hi hr' := by
    have hlt := hi.trans_le h.count
    have hr := getElem?_eq_getElem hlt
    obtain ⟨r'', hr'', -, -, hp⟩ := E.kept i _ hr
    cases hr'.symm.trans hr''
    exact hp (h.business i _ hi hr)
  closed ho := E.closed (h.closed ho)

theorem Evolves.fits (E : Evolves l l') (h : Fits O l s) : Fits O l' s :=
  ⟨h.context, h.operationId, h.accepted, fun f hf => ⟨E.frozen (h.frozen f hf).1, (h.frozen f hf).2⟩,
    h.plain⟩

/-- A ledger with the same records, sealed or not. -/
theorem Evolves.of_records (hr : l'.records = l.records) (hs : l.isSealed → l'.isSealed) :
    Evolves l l' :=
  ⟨fun i r h => ⟨r, hr ▸ h, rfl, rfl, fun h => h⟩, fun h => ⟨hs h, by rw [hr]⟩⟩

theorem Evolves.of_modify {g : HostEffectRecord → HostEffectRecord}
    (hg : ∀ r, (g r).caller = r.caller ∧ (g r).effectId = r.effectId ∧
      (r.phase = .completed → (g r).phase = .completed)) :
    Evolves l { l with records := l.records.modify i g } := by
  refine ⟨fun j r hr => ?_, fun h => ⟨h, length_modify ..⟩⟩
  rw [getElem?_modify, hr]
  by_cases hij : i = j
  · exact ⟨g r, by simp [hij], hg r⟩
  · exact ⟨r, by simp [hij], rfl, rfl, fun h => h⟩

theorem Evolves.of_set {r₁ : HostEffectRecord} (hr : l.records[i]? = some r₀) (hc : r₁.caller = r₀.caller)
    (he : r₁.effectId = r₀.effectId) (hp : r₀.phase ≠ .completed) :
    Evolves l { l with bytes, records := l.records.set i r₁ } := by
  refine ⟨fun j r hj => ?_, fun h => ⟨h, length_set⟩⟩
  by_cases hij : i = j
  · subst hij
    cases hr.symm.trans hj
    exact ⟨r₁, List.getElem?_set_self (List.getElem?_eq_some_iff.1 hr).1, hc, he,
      fun h => absurd h hp⟩
  · exact ⟨r, by rw [getElem?_set_ne hij, hj], rfl, rfl, fun h => h⟩

theorem reserveEffect_ok {stage : EffectAdmissionStage} {caller : CapabilityCaller}
    {registrationId name version : String}
    (h : O.reserveEffect w stage caller registrationId name version = .ok l') :
    ∃ bytes, l' = { w.ledger with
        bytes
        records := w.ledger.records ++
          [O.effects.preparedRecord w.ledger.records.length caller registrationId name version] } ∧
      w.ledger.isSealed = false ∧ caller.validate O.runtimeId = .ok () ∧
      (∀ a ∈ O.context.caller, a = caller) ∧ caller.operationId = O.id := by
  simp only [reserveEffect, prepare, bind_eq_ok, refuseIf_eq_ok, not_or,
    Bool.not_eq_true] at h
  obtain ⟨_, _, _, hv, _, hop, _, hctx, _, hs, _, _, _, _, _, _, total, _, h⟩ := h
  cases h
  refine ⟨total, rfl, hs.1, hv, fun a ha => ?_, not_not.1 hop.2⟩
  have : O.context.caller.any (· ≠ caller) = false := hctx
  rw [ha] at this
  simpa using this

theorem bindRequest_ok (h : O.effects.bindRequest w.ledger i requestId = .ok l') :
    ∃ bytes record, w.ledger.records[i]? = some record ∧ record.phase = .prepared ∧
      l' = { w.ledger with
        bytes
        records := w.ledger.records.set i { record with requestId := some requestId } } := by
  simp only [bindRequest, bind_eq_ok, refuseIf_eq_ok, okOr_eq_ok, not_or,
    not_not] at h
  obtain ⟨record, hr, _, ⟨hp, _⟩, _, _, _, _, total, _, h⟩ := h
  cases h
  exact ⟨total, record, hr, hp, rfl⟩

theorem beginEffect_ok (h : beginEffect l i = .ok l') :
    ∃ record, l.records[i]? = some record ∧ record.phase = .prepared ∧
      l' = { l with
        records := l.records.set i { record with phase := .running, effects := .unknown } } := by
  simp only [beginEffect, bind_eq_ok, refuseIf_eq_ok, okOr_eq_ok, not_not] at h
  obtain ⟨record, hr, _, hp, h⟩ := h
  cases h
  exact ⟨record, hr, hp, rfl⟩

theorem LedgerMove.evolves (m : LedgerMove O w l') : Evolves w.ledger l' := by
  cases m with
  | reserve h =>
    obtain ⟨bytes, rfl, hs, -⟩ := reserveEffect_ok h
    refine ⟨fun i r hr => ⟨r, ?_, rfl, rfl, fun h => h⟩, fun h => absurd h (by simp [hs])⟩
    exact WriterWorld.getElem?_prefix_some (prefix_append _ _) hr
  | bind h =>
    obtain ⟨bytes, record, hr, hp, rfl⟩ := bindRequest_ok h
    exact .of_set hr rfl rfl (by rw [hp]; nofun)
  | begin _ h =>
    obtain ⟨record, hr, hp, rfl⟩ := beginEffect_ok h
    exact .of_set hr rfl rfl (by rw [hp]; nofun)
  | observe effects _ => exact .of_modify fun r => ⟨rfl, rfl, fun h => h⟩
  | drop i => exact .of_modify fun r => ⟨rfl, rfl, fun _ => rfl⟩

theorem Owned.of_callers {records' : List HostEffectRecord} (H : Owned O records)
    (h : ∀ r' ∈ records', ∃ r ∈ records, r'.caller = r.caller) : Owned O records' := by
  intro r' hr'
  obtain ⟨r, hr, hc⟩ := h r' hr'
  rw [hc]
  exact H r hr

theorem Owned.set {r₁ : HostEffectRecord} (H : Owned O records) (hr : records[i]? = some r₀)
    (hc : r₁.caller = r₀.caller) : Owned O (records.set i r₁) := by
  refine H.of_callers fun r' hr' => ?_
  rcases mem_or_eq_of_mem_set hr' with h | rfl
  · exact ⟨r', h, rfl⟩
  · exact ⟨r₀, mem_of_getElem? hr, hc⟩

theorem Owned.modify {g : HostEffectRecord → HostEffectRecord} (H : Owned O records)
    (hg : ∀ r, (g r).caller = r.caller) : Owned O (records.modify i g) := by
  refine H.of_callers fun r' hr' => ?_
  obtain ⟨j, hj⟩ := mem_iff_getElem?.1 hr'
  rw [getElem?_modify] at hj
  obtain ⟨r, hr, rfl⟩ := Option.map_eq_some_iff.1 hj
  refine ⟨r, mem_of_getElem? hr, ?_⟩
  split
  · exact hg r
  · rfl

theorem LedgerMove.owned (m : LedgerMove O w l') (H : Owned O w.ledger.records) :
    Owned O l'.records := by
  cases m with
  | reserve h =>
    obtain ⟨bytes, rfl, -, hv, hctx, hop⟩ := reserveEffect_ok h
    intro r hr
    rcases mem_append.1 hr with hr | hr
    · exact H r hr
    · cases mem_singleton.1 hr
      exact ⟨hv, hctx, hop⟩
  | bind h =>
    obtain ⟨bytes, record, hr, hp, rfl⟩ := bindRequest_ok h
    exact H.set hr rfl
  | begin _ h =>
    obtain ⟨record, hr, hp, rfl⟩ := beginEffect_ok h
    exact H.set hr rfl
  | observe effects _ => exact H.modify fun _ => rfl
  | drop i => exact H.modify fun _ => rfl

/-! ## The checks of a write -/

theorem validateCallers_ok (hc : s.context = O.context) (hid : s.operationId = O.id)
    (ho : Owned O s.hostEffects) (hf : s.validateFinalization = .ok ()) :
    validateCallers O.runtimeId s = .ok () := by
  unfold validateCallers
  rw [hf, ok_bind, hc, hid, O.valid, ok_bind]
  refine forM_eq_ok fun r hr => ?_
  obtain ⟨hv, hctx, hop⟩ := ho r hr
  have hany : ¬ O.context.caller.any (· ≠ r.caller) = true := by
    cases ha : O.context.caller with
    | none => nofun
    | some a => simpa using hctx a ha
  rw [hv, ok_bind, refuseIf_of_not hany, ok_bind, refuseIf_of_not (not_not.2 hop)]

/-- The evidence of a closing operation: without a result while it is closing, with the projection of
both outcomes once it is terminal. -/
theorem validateFinalization_ok (hf : s.finalization = some f)
    (hp : s.phase = .cleaning ∨ s.phase.isTerminal) (hn : unnamed f.export_ = false)
    (hc : f.businessEffectCount ≤ s.hostEffects.length)
    (hb : ∀ r ∈ s.hostEffects.take f.businessEffectCount, r.phase = .completed)
    (ho : f.outcome.isSome → ∀ r ∈ s.hostEffects, r.phase = .completed)
    (hopen : s.phase.isTerminal = false → s.value = none ∧ s.error = none)
    (hterm : s.phase.isTerminal → ∃ closing ∈ f.outcome, s.projects
      (f.business.result.bind fun value => closing.result.map fun _ => value)) :
    s.validateFinalization = .ok () := by
  have h₁ : ¬ (unnamed f.export_ ∨ f.businessEffectCount > s.hostEffects.length ∨
      (¬ s.phase.isTerminal ∧ s.phase ≠ .cleaning) ∨
      (s.hostEffects.take f.businessEffectCount).any fun e => e.phase ≠ .completed) := by
    rintro (h | h | ⟨ht, hcl⟩ | h)
    · simp [hn] at h
    · exact absurd hc (Nat.not_le.2 h)
    · exact hp.elim hcl ht
    · obtain ⟨r, hr, hne⟩ := any_eq_true.1 h
      exact of_decide_eq_true hne (hb r hr)
  have h₂ : ¬ (f.outcome.isSome ∧ s.hostEffects.any fun e => e.phase ≠ .completed) := by
    rintro ⟨hsome, h⟩
    obtain ⟨r, hr, hne⟩ := any_eq_true.1 h
    exact of_decide_eq_true hne (ho hsome r hr)
  unfold OperationSnapshot.validateFinalization
  simp only [hf]
  rw [refuseIf_of_not h₁, ok_bind, refuseIf_of_not h₂, ok_bind]
  cases ht : s.phase.isTerminal with
  | false =>
    obtain ⟨hv, he⟩ := hopen ht
    simp [hv, he]
  | true =>
    obtain ⟨closing, hcl, hpr⟩ := hterm ht
    rw [Option.mem_def.1 hcl]
    simp [ok_bind, hpr]

/-- A nonterminal snapshot over the records of a ledger is accepted. -/
theorem Fits.of_records (hc : s.context = O.context) (hid : s.operationId = O.id)
    (ho : Owned O l.records) (hh : s.hostEffects = l.records) (hp : s.phase.isTerminal = false)
    (hv : s.value = none ∧ s.error = none)
    (hf : ∀ f ∈ s.finalization, Frozen l f ∧ s.phase = .cleaning) : Fits O l s := by
  refine ⟨hc, hid, validateCallers_ok hc hid (hh ▸ ho) ?_, fun f h => ⟨(hf f h).1, .inl (hf f h).2⟩,
    fun _ => hv⟩
  cases h : s.finalization with
  | none => simp [OperationSnapshot.validateFinalization, h]
  | some f =>
    obtain ⟨F, hcl⟩ := hf f h
    refine validateFinalization_ok h (.inl hcl) F.named (hh ▸ F.count) ?_ ?_ (fun _ => hv) ?_
    · rw [hh]
      intro r hr
      obtain ⟨i, hi⟩ := mem_iff_getElem?.1 hr
      rw [getElem?_take] at hi
      split at hi
      · next hlt => exact F.business i r hlt hi
      · cases hi
    · intro hs r hr
      rw [hh] at hr
      obtain ⟨i, hi⟩ := mem_iff_getElem?.1 hr
      exact not_unfinished.1 (F.closed hs).2 i r hi
    · intro ht
      simp [hp] at ht

/-! ## The builders -/

/-- A candidate of the transition slot. -/
structure Suits (O : Operation) (w : OperationWorld) (effect : Option CheckpointEffect)
    (s : OperationSnapshot) : Prop where
  fits : Fits O w.ledger s
  nonterminal : s.phase.isTerminal = false
  live : w.snapshot.phase.isTerminal = false
  keeps : w.snapshot.KeepsFinalization s
  same : effect.isSome → s.finalization = w.snapshot.finalization

theorem legalAdvance_open (h : OperationSnapshot.legalAdvance a b) :
    a.isTerminal = false ∧ a ≠ .cleaning ∧ b.isTerminal = false := by
  revert h
  cases a <;> cases b <;> decide

theorem advanceSnapshot_ok (h : s.advanceSnapshot phase = .ok s') :
    OperationSnapshot.legalAdvance s.phase phase ∧ s'.phase = phase ∧ s'.context = s.context ∧
      s'.operationId = s.operationId ∧ s'.value = s.value ∧ s'.error = s.error ∧
      s'.finalization = s.finalization := by
  simp only [OperationSnapshot.advanceSnapshot, bind_eq_ok, refuseIf_eq_ok, not_not] at h
  obtain ⟨_, hl, h⟩ := h
  cases h
  exact ⟨hl, rfl, rfl, rfl, rfl, rfl, rfl⟩

theorem Fits.advance (F : Fits O l s) (h : OperationSnapshot.legalAdvance s.phase phase) :
    s.finalization = none := by
  obtain ⟨ht, hc, -⟩ := legalAdvance_open h
  cases hf : s.finalization with
  | none => rfl
  | some f =>
    rcases (F.frozen f hf).2 with hcl | hterm
    · exact absurd hcl hc
    · simp [ht] at hterm

section
variable (F : Fits O w.ledger w.snapshot) (H : Owned O w.ledger.records)
include F H

theorem Suits.phase {phase : OperationPhase} (h : advanceCandidate w phase = .ok s) :
    Suits O w none s := by
  obtain ⟨s', hs', h⟩ := bind_eq_ok.1 h
  cases h
  obtain ⟨hl, -, hctx, hid, hv, he, hf⟩ := advanceSnapshot_ok hs'
  have hnone := F.advance hl
  obtain ⟨hlive, -, hp⟩ := legalAdvance_open hl
  obtain ⟨hv₀, he₀⟩ := F.plain hlive
  refine ⟨?_, hp, hlive, ?_, nofun⟩
  · refine .of_records (hctx.trans F.context) (hid.trans F.operationId) H rfl hp
      ⟨hv.trans hv₀, he.trans he₀⟩ fun f h => ?_
    have : s'.finalization = some f := h
    rw [hf, hnone] at this
    cases this
  · intro f h
    rw [hnone] at h
    cases h

omit H in
/-- Live evidence over the records of a ledger that has moved on. -/
theorem Suits.evidence (hlive : w.snapshot.phase.isTerminal = false) (hr : Owned O records)
    (hE : Evolves w.ledger { w.ledger with records := records }) :
    Suits O w effect (evidence w records) := by
  obtain ⟨hv, he⟩ := F.plain hlive
  have hfin : ∀ f ∈ w.snapshot.finalization, Frozen w.ledger f ∧ w.snapshot.phase = .cleaning := by
    intro f hf
    obtain ⟨hfr, hcl | ht⟩ := F.frozen f hf
    · exact ⟨hfr, hcl⟩
    · simp [hlive] at ht
  have hfits : Fits O { w.ledger with records := records } (Operation.evidence w records) :=
    .of_records F.context F.operationId hr rfl hlive ⟨hv, he⟩
      fun f hf => ⟨hE.frozen (hfin f hf).1, (hfin f hf).2⟩
  refine ⟨⟨hfits.context, hfits.operationId, hfits.accepted, fun f hf => ?_, hfits.plain⟩, hlive,
    hlive, .refl _, fun _ => rfl⟩
  exact ⟨(hfin f hf).1, .inl (hfin f hf).2⟩

theorem Suits.captured (h : Captured w effect s) : Suits O w effect s := by
  cases h with
  | phase h => exact .phase F H h
  | start h =>
    obtain ⟨hlive, i, record, hr, -, hp, rfl⟩ := startCandidate_ok h
    exact .evidence F hlive (H.set hr rfl) (.of_set hr rfl rfl (by rw [hp]; nofun))
  | outcome h =>
    simp only [outcomeCandidate, bind_eq_ok, refuseIf_eq_ok, okOr_eq_ok, not_not,
      Bool.not_eq_true] at h
    obtain ⟨_, hlive, _, _, _, _, h⟩ := h
    cases h
    exact .evidence F hlive H (.of_records rfl fun h => h)

end

theorem Captured.finalization (h : Captured w effect s) : s.finalization = w.snapshot.finalization := by
  cases h with
  | phase h =>
    obtain ⟨s', hs', h⟩ := bind_eq_ok.1 h
    cases h
    exact (advanceSnapshot_ok hs').2.2.2.2.2.2
  | start h =>
    obtain ⟨-, i, record, -, -, -, rfl⟩ := startCandidate_ok h
    rfl
  | outcome h =>
    simp only [outcomeCandidate, bind_eq_ok] at h
    obtain ⟨_, _, _, _, _, _, h⟩ := h
    cases h
    rfl

theorem beginFinalization_ok {count : ℕ} (h : beginFinalization l = .ok (l', count)) :
    ¬ unfinished l ∧ count = l.records.length ∧ l' = { l with stage := .finalization } := by
  simp only [beginFinalization, bind_eq_ok, refuseIf_eq_ok] at h
  obtain ⟨_, _, _, hu, h⟩ := h
  cases h
  exact ⟨hu, rfl, rfl⟩

theorem sealRecords_ok (h : sealRecords l = .ok (l', records)) :
    Closed l' ∧ records = l.records ∧ l' = { l with isSealed := true } := by
  simp only [sealRecords, bind_eq_ok, refuseIf_eq_ok] at h
  obtain ⟨_, hu, h⟩ := h
  cases h
  exact ⟨⟨rfl, hu⟩, rfl, rfl⟩

theorem Suits.finalize {export_ : String} {business : OperationOutcome} {count : ℕ}
    {ownership : Option FinalizationOwnership} {snapshot : OperationSnapshot}
    (F : Fits O w.ledger w.snapshot) (H : Owned O w.ledger.records) (hn : unnamed export_ = false)
    (hs : w.snapshot.advanceSnapshot .cleaning = .ok snapshot)
    (hl : beginFinalization w.ledger = .ok (l', count)) :
    Suits O { w with ledger := l', finalization := ownership } none
      (finalizationCandidate { w with ledger := l', finalization := ownership } snapshot export_
        business count) := by
  obtain ⟨hu, rfl, rfl⟩ := beginFinalization_ok hl
  obtain ⟨hlegal, hp, hctx, hid, hv, he, -⟩ := advanceSnapshot_ok hs
  obtain ⟨hlive, -, -⟩ := legalAdvance_open hlegal
  obtain ⟨hv₀, he₀⟩ := F.plain hlive
  have hphase : (finalizationCandidate { w with
      ledger := { w.ledger with stage := .finalization }, finalization := ownership } snapshot export_
      business w.ledger.records.length).phase = .cleaning := by
    simp [finalizationCandidate, OperationWorld.project, hp]
  refine ⟨.of_records (hctx.trans F.context) (hid.trans F.operationId) H rfl ?_
    ⟨hv.trans hv₀, he.trans he₀⟩ fun f hf => ⟨?_, hphase⟩, ?_, hlive, fun f hf => ?_, nofun⟩
  · rw [hphase]
    rfl
  · cases hf
    exact ⟨hn, Nat.le_refl _, fun i r _ hr => not_unfinished.1 hu i r hr, nofun⟩
  · rw [hphase]
    rfl
  · rw [F.advance hlegal] at hf
    cases hf

theorem Suits.close {outcome : OperationOutcome} {ownership : Option FinalizationOwnership}
    (F : Fits O w.ledger w.snapshot) (H : Owned O w.ledger.records) (hp : w.snapshot.phase = .cleaning)
    (ho : ∀ f ∈ w.snapshot.finalization, f.outcome = none) (hl : sealRecords w.ledger = .ok (l', records)) :
    Suits O { w with ledger := l', finalization := ownership } none
      (closingCandidate { w with ledger := l', finalization := ownership } records outcome) := by
  obtain ⟨hcl, rfl, rfl⟩ := sealRecords_ok hl
  have hlive : w.snapshot.phase.isTerminal = false := by
    rw [hp]
    rfl
  refine ⟨.of_records F.context F.operationId H rfl hlive (F.plain hlive) fun f hf => ⟨?_, hp⟩, hlive,
    hlive, fun f hf => ?_, nofun⟩
  · obtain ⟨f₀, hf₀, rfl⟩ := Option.map_eq_some_iff.1 hf
    obtain ⟨⟨hn, hc, hb, -⟩, -⟩ := F.frozen f₀ hf₀
    exact ⟨hn, hc, hb, fun _ => hcl⟩
  · refine ⟨{ f with outcome := some outcome }, ?_, rfl, .refl _, rfl, fun o h => ?_⟩
    · exact Option.map_eq_some_iff.2 ⟨f, hf, rfl⟩
    · rw [ho f hf] at h
      cases h

structure Ends (O : Operation) (w : OperationWorld) (s : OperationSnapshot) : Prop where
  fits : Fits O w.ledger s
  terminal : s.phase.isTerminal
  cleaning : w.snapshot.phase = .cleaning
  keeps : w.snapshot.KeepsFinalization s
  closed : Closed w.ledger

theorem terminalSnapshot_terminal (result : EmbeddedResult Json) :
    (terminalSnapshot s result).phase.isTerminal = true := by
  cases result with
  | ok value => rfl
  | error error =>
    simp only [terminalSnapshot]
    split <;> rfl

theorem terminalResult_projects (h : terminalResult w result = .ok terminal)
    (hf : w.snapshot.finalization = some f) (hv : s.value = none ∧ s.error = none) :
    ∃ closing ∈ f.outcome, (terminalSnapshot s terminal).projects
      (f.business.result.bind fun value => closing.result.map fun _ => value) := by
  simp only [terminalResult, hf, Except.bind_eq_ok, refuseIf_eq_ok, not_not] at h
  obtain ⟨_, _, _, hsame, h⟩ := h
  split at h
  · cases h
  · next error closing hb ho =>
    cases h
    refine ⟨closing, ho, ?_⟩
    simp [hb, OperationOutcome.result, Except.bind, terminalSnapshot, OperationSnapshot.projects, hv.1]
  · next value error hb ho =>
    cases h
    refine ⟨_, ho, ?_⟩
    simp [hb, OperationOutcome.result, Except.bind, Except.map, terminalSnapshot,
      OperationSnapshot.projects, hv.1]
  · next value closing hb ho =>
    cases h
    refine ⟨_, ho, ?_⟩
    cases result with
    | error e => simp [hb, OperationOutcome.result, sameResult] at hsame
    | ok value' =>
      have hsame : value.Same value' := by simpa [hb, OperationOutcome.result, sameResult] using hsame
      have : value'.Same value := hsame.symm
      simp [hb, OperationOutcome.result, Except.bind, Except.map, terminalSnapshot,
        OperationSnapshot.projects, hv.2, this]

theorem terminalSnapshot_fields (result : EmbeddedResult Json) :
    (terminalSnapshot s result).context = s.context ∧
      (terminalSnapshot s result).operationId = s.operationId ∧
      (terminalSnapshot s result).hostEffects = s.hostEffects ∧
      (terminalSnapshot s result).finalization = s.finalization := by
  cases result <;> exact ⟨rfl, rfl, rfl, rfl⟩

theorem Ends.complete {result terminal : EmbeddedResult Json} {records : List HostEffectRecord}
    {effects : EffectState} {pending : Option OperationSnapshot}
    (F : Fits O w.ledger w.snapshot) (H : Owned O w.ledger.records)
    (hp : w.snapshot.phase = .cleaning) (hr : terminalResult w result = .ok terminal)
    (hl : sealRecords w.ledger = .ok (l', records)) :
    Ends O { w with ledger := l', pendingCompletion := pending }
      (terminalCandidate w records terminal effects) := by
  obtain ⟨hcl, rfl, rfl⟩ := sealRecords_ok hl
  have hplain := F.plain (by rw [hp]; rfl)
  have hall : ∀ r ∈ w.ledger.records, r.phase = .completed := by
    intro r hr
    by_contra h
    exact hcl.2 ⟨r, hr, h⟩
  have hterm : (terminalCandidate w w.ledger.records terminal effects).phase.isTerminal = true :=
    terminalSnapshot_terminal terminal
  obtain ⟨hctx, hid, hh, hf⟩ := terminalSnapshot_fields (s := { w.snapshot with
    hostEffects := w.ledger.records
    effects := mergeEffects effects w.ledger.records
    cancellationRequested := w.cancelled }) terminal
  have hfrozen : ∀ f ∈ w.snapshot.finalization, Frozen { w.ledger with isSealed := true } f := by
    intro f h
    obtain ⟨⟨hn, hc, hb, -⟩, -⟩ := F.frozen f h
    exact ⟨hn, hc, hb, fun _ => hcl⟩
  refine ⟨⟨hctx.trans F.context, hid.trans F.operationId, ?_, fun f h => ⟨hfrozen f (hf ▸ h), .inr hterm⟩,
    fun h => ?_⟩, hterm, hp, ?_, hcl⟩
  · refine validateCallers_ok (hctx.trans F.context) (hid.trans F.operationId) ?_ ?_
    · rw [terminalCandidate, hh]
      exact H
    · cases hfin : w.snapshot.finalization with
      | none =>
        have : (terminalCandidate w w.ledger.records terminal effects).finalization = none :=
          hf.trans hfin
        simp [OperationSnapshot.validateFinalization, this]
      | some f =>
        refine validateFinalization_ok (hf.trans hfin) (.inr hterm) (hfrozen f hfin).named ?_ ?_ ?_
          ?_ fun _ => terminalResult_projects hr hfin hplain
        · rw [terminalCandidate, hh]
          exact (hfrozen f hfin).count
        · rw [terminalCandidate, hh]
          exact fun r hr => hall r (mem_of_mem_take hr)
        · rw [terminalCandidate, hh]
          exact fun _ => hall
        · intro h
          simp [hterm] at h
  · simp [hterm] at h
  · intro f h
    exact ⟨f, hf.trans h, .refl f⟩

/-! ## The invariant -/

/-- A submission passes every semantic check of the journal against the record it replaces. -/
structure Passes (O : Operation) (acknowledged : List (ℕ × OperationSnapshot)) (x : Submission) :
    Prop where
  context : x.snapshot.context = O.context
  operationId : x.snapshot.operationId = O.id
  accepted : validateCallers O.runtimeId x.snapshot = .ok ()
  successor : ∀ n, x.previous = some n → ∃ p, (n, p) ∈ acknowledged ∧
    p.context = x.snapshot.context ∧ p.KeepsFinalization x.snapshot

structure Contents (O : Operation) (w : OperationWorld) : Prop where
  owned : Owned O w.ledger.records
  snapshot : Fits O w.ledger w.snapshot
  transition : ∀ c ∈ w.transition, Suits O w c.effect c.snapshot
  pending : ∀ s ∈ w.pendingCompletion, Ends O w s
  ownership : ∀ s, s = w.snapshot ∨ (∃ c ∈ w.transition, s = c.snapshot) →
    s.phase.isTerminal = false → s.finalization.isSome →
    ∃ o ∈ w.finalization, o.outcomePrepared = false → ∀ f ∈ s.finalization, f.outcome = none
  acknowledged : ∀ x ∈ w.acknowledged, x.2.context = O.context ∧ x.2.operationId = O.id
  last : ∀ m s, w.acknowledged.getLast? = some (m, s) →
    (∃ σ c, w.slot σ = some c ∧ c.attempt = .acknowledged) ∨ s.KeepsFinalization w.snapshot
  submissions : ∀ x ∈ w.submissions, Passes O w.acknowledged x

theorem Suits.frame (S : Suits O w effect s) (E : Evolves w.ledger v.ledger) (hs : v.snapshot = w.snapshot) :
    Suits O v effect s :=
  ⟨E.fits S.fits, S.nonterminal, hs ▸ S.live, hs ▸ S.keeps, hs ▸ S.same⟩

theorem Ends.frame (S : Ends O w s) (E : Evolves w.ledger v.ledger) (hs : v.snapshot = w.snapshot) :
    Ends O v s :=
  ⟨E.fits S.fits, S.terminal, hs ▸ S.cleaning, hs ▸ S.keeps, E.closed S.closed⟩

theorem Evolves.refl (l : LedgerState) : Evolves l l := .of_records rfl fun h => h

/-- Moves outside the slots, the public snapshot and the logs. -/
theorem Contents.frame (C : Contents O w) (E : Evolves w.ledger v.ledger)
    (owned : Owned O v.ledger.records) (hs : v.snapshot = w.snapshot)
    (hslot : ∀ τ, v.slot τ = w.slot τ) (hp : v.pendingCompletion = w.pendingCompletion)
    (hf : ∀ o ∈ w.finalization, ∃ o' ∈ v.finalization, o'.outcomePrepared = o.outcomePrepared)
    (ha : v.acknowledged = w.acknowledged) (hsub : v.submissions = w.submissions) :
    Contents O v where
  owned := owned
  snapshot := by
    rw [hs]
    exact E.fits C.snapshot
  transition c hc := (C.transition c ((hslot .transition).symm.trans hc)).frame E hs
  pending s h := (C.pending s (hp ▸ h)).frame E hs
  ownership s h ht hsome := by
    have h : s = w.snapshot ∨ ∃ c ∈ w.transition, s = c.snapshot := by
      rcases h with h | ⟨c, hc, h⟩
      · exact .inl (h.trans hs)
      · exact .inr ⟨c, (hslot .transition).symm.trans hc, h⟩
    obtain ⟨o, ho, himp⟩ := C.ownership s h ht hsome
    obtain ⟨o', ho', heq⟩ := hf o ho
    exact ⟨o', ho', fun h => himp (heq ▸ h)⟩
  acknowledged := ha ▸ C.acknowledged
  last m s h := by
    rcases C.last m s (ha ▸ h) with ⟨σ, c, hc, hack⟩ | hk
    · exact .inl ⟨σ, c, (hslot σ).trans hc, hack⟩
    · exact .inr (hs ▸ hk)
  submissions := by
    rw [hsub, ha]
    exact C.submissions

section
variable {K : Allowance} {c c' : PendingCheckpoint} {σ : Slot}
  {effect : Option CheckpointEffect}

/-- The candidate of a slot fits and keeps the public finalization evidence. -/
theorem Contents.slot (P : Protocol O w) (C : Contents O w) (h : w.slot σ = some c) :
    Fits O w.ledger c.snapshot ∧ w.snapshot.KeepsFinalization c.snapshot := by
  cases σ with
  | transition => exact ⟨(C.transition c h).fits, (C.transition c h).keeps⟩
  | completion =>
    have S := C.pending c.snapshot (P.completion c h)
    exact ⟨S.fits, S.keeps⟩

/-- A candidate that is not yet acknowledged succeeds the last one that was. -/
theorem Contents.successor (P : Protocol O w) (C : Contents O w) (h : w.slot σ = some c)
    (hc : c.attempt ≠ .acknowledged) {m : ℕ} (hl : w.acknowledged.getLast? = some (m, s)) :
    s.context = c.snapshot.context ∧ s.KeepsFinalization c.snapshot := by
  obtain ⟨F, hkeeps⟩ := C.slot P h
  refine ⟨(C.acknowledged _ (mem_of_getLast? hl)).1.trans F.context.symm, ?_⟩
  rcases C.last m s hl with ⟨τ, d, hd, hack⟩ | hk
  · obtain ⟨-, rfl⟩ := P.slot_unique h hd
    exact absurd hack hc
  · exact hk.trans hkeeps

/-- A candidate that is submitted passes. -/
theorem Contents.passes (P : Protocol O w) (C : Contents O w) (h : w.slot σ = some c)
    (hc : c.attempt = .new) : Passes O w.acknowledged ⟨c.candidate, c.snapshot, w.revision⟩ := by
  obtain ⟨F, -⟩ := C.slot P h
  refine ⟨F.context, F.operationId, F.accepted, fun n hn => ?_⟩
  have hn : w.revision = some n := hn
  rw [P.revised.revision] at hn
  obtain ⟨⟨m, p⟩, hl, rfl⟩ := Option.map_eq_some_iff.1 hn
  exact ⟨p, mem_of_getLast? hl, C.successor P h (by rw [hc]; nofun) hl⟩

theorem Passes.mono (H : Passes O a x) (h : a ⊆ a') : Passes O a' x :=
  ⟨H.context, H.operationId, H.accepted, fun n hn => by
    obtain ⟨p, hp, hk⟩ := H.successor n hn
    exact ⟨p, h hp, hk⟩⟩

theorem Contents.progress (P : Protocol O w) (C : Contents O w) (h : w.slot σ = some c)
    (hp : Progress O K w c v c') : Contents O (v.setSlot σ (some c')) := by
  have B := hp.beside
  have N := hp.continues
  obtain ⟨F, -⟩ := C.slot P h
  have hack : c.attempt = .acknowledged → c'.attempt = .acknowledged := by
    intro hack
    cases hp with
    | permit => simp [hack, Attempt.isFailed]
    | submit _ hc | lose hc | acknowledge hc | fail hc => cases hack.symm.trans hc
    | settle | report | request => exact hack
  have hslot : ∀ d ∈ (v.setSlot σ (some c')).transition,
      ∃ d₀ ∈ w.transition, d.effect = d₀.effect ∧ d.snapshot = d₀.snapshot := by
    intro d hd
    cases σ with
    | transition =>
      cases hd
      exact ⟨c, h, N.effect, N.snapshot⟩
    | completion => exact ⟨d, (B.slot .transition).symm.trans hd, rfl, rfl⟩
  have hacks : w.acknowledged ⊆ v.acknowledged := by
    cases hp with
    | acknowledge => exact subset_append_left _ _
    | _ => exact fun _ h => h
  refine ⟨B.ledger ▸ C.owned, ?_, fun d hd => ?_, fun s hs => ?_, fun s hs => ?_, ?_, ?_, ?_⟩
  · change Fits O v.ledger v.snapshot
    rw [B.ledger, B.snapshot]
    exact C.snapshot
  · obtain ⟨d₀, hd₀, he, hs⟩ := hslot d hd
    rw [he, hs]
    exact (C.transition d₀ hd₀).frame (B.ledger ▸ .refl _) B.snapshot
  · exact (C.pending s (B.pendingCompletion ▸ hs)).frame (B.ledger ▸ .refl _) B.snapshot
  · have : s = w.snapshot ∨ ∃ c ∈ w.transition, s = c.snapshot := by
      rcases hs with hs | ⟨d, hd, hs⟩
      · exact .inl (hs.trans B.snapshot)
      · obtain ⟨d₀, hd₀, -, hs₀⟩ := hslot d hd
        exact .inr ⟨d₀, hd₀, hs.trans hs₀⟩
    change _ → _ → ∃ o ∈ v.finalization, _
    rw [B.finalization]
    exact C.ownership s this
  · change ∀ x ∈ v.acknowledged, _
    cases hp with
    | acknowledge =>
      intro x hx
      rcases mem_append.1 hx with hx | hx
      · exact C.acknowledged x hx
      · cases mem_singleton.1 hx
        exact ⟨F.context, F.operationId⟩
    | _ => exact C.acknowledged
  · have old : ∀ m s, w.acknowledged.getLast? = some (m, s) →
        (∃ τ d, (v.setSlot σ (some c')).slot τ = some d ∧ d.attempt = .acknowledged) ∨
          s.KeepsFinalization v.snapshot := by
      intro m s hl
      rcases C.last m s hl with ⟨τ, d, hd, hda⟩ | hk
      · obtain ⟨-, rfl⟩ := P.slot_unique h hd
        exact .inl ⟨σ, c', OperationWorld.slot_setSlot .., hack hda⟩
      · exact .inr (B.snapshot ▸ hk)
    cases hp with
    | acknowledge => exact fun m s _ => .inl ⟨σ, _, OperationWorld.slot_setSlot .., rfl⟩
    | _ => exact old
  · change ∀ x ∈ v.submissions, Passes O v.acknowledged x
    cases hp with
    | submit _ hc =>
      intro x hx
      rcases mem_append.1 hx with hx | hx
      · exact C.submissions x hx
      · cases mem_singleton.1 hx
        have := C.passes P h hc
        exact this
    | _ => exact fun x hx => (C.submissions x hx).mono hacks

theorem Contents.capture (P : Protocol O w) (C : Contents O w) (ht : w.transition = none)
    (hp : w.pendingCompletion = none) (E : Evolves w.ledger v.ledger)
    (owned : Owned O v.ledger.records) (hs : v.snapshot = w.snapshot)
    (hpc : v.pendingCompletion = w.pendingCompletion) (ha : v.acknowledged = w.acknowledged)
    (hsub : v.submissions = w.submissions) (S : Suits O v effect s)
    (own : ∀ s', s' = w.snapshot ∨ s' = s → s'.phase.isTerminal = false → s'.finalization.isSome →
      ∃ o ∈ v.finalization, o.outcomePrepared = false → ∀ f ∈ s'.finalization, f.outcome = none) :
    Contents O (v.retain .transition effect s) := by
  have free : ∀ τ, w.slot τ = none := by
    intro τ
    cases τ
    · exact ht
    · exact P.completion_none hp
  refine ⟨owned, ?_, fun c hc => ?_, fun s' hs' => ?_, fun s' hs' => ?_, ?_, fun m p hl => ?_, ?_⟩
  · change Fits O v.ledger v.snapshot
    rw [hs]
    exact E.fits C.snapshot
  · cases hc
    exact ⟨S.fits, S.nonterminal, S.live, S.keeps, S.same⟩
  · have : w.pendingCompletion = some s' := hpc.symm.trans hs'
    rw [hp] at this
    cases this
  · refine own s' ?_
    rcases hs' with h | ⟨d, hd, h⟩
    · exact .inl (h.trans hs)
    · cases hd
      exact .inr h
  · exact ha ▸ C.acknowledged
  · rcases C.last m p (ha ▸ hl) with ⟨τ, d, hd, -⟩ | hk
    · exact absurd ((free τ).symm.trans hd) nofun
    · exact .inr (hs ▸ hk)
  · change ∀ x ∈ v.submissions, Passes O v.acknowledged x
    rw [hsub, ha]
    exact C.submissions

/-- The slots are empty again and the last acknowledged snapshot is kept by the public one. -/
theorem Contents.release (C : Contents O w) (hl : v.ledger = w.ledger) (hfin : v.finalization = w.finalization)
    (hfree : ∀ τ, v.slot τ = none) (hp : ∀ s ∈ v.pendingCompletion, Ends O v s)
    (hs : v.snapshot = w.snapshot ∨ Fits O w.ledger v.snapshot ∧
      (v.snapshot.phase.isTerminal = false → ∃ c ∈ w.transition, v.snapshot = c.snapshot))
    (hlast : ∀ m s, w.acknowledged.getLast? = some (m, s) → s.KeepsFinalization v.snapshot)
    (ha : v.acknowledged = w.acknowledged) (hsub : v.submissions = w.submissions) :
    Contents O v where
  owned := hl ▸ C.owned
  snapshot := by
    rw [hl]
    rcases hs with h | ⟨h, -⟩
    · exact h ▸ C.snapshot
    · exact h
  transition c hc := absurd ((hfree .transition).symm.trans hc) nofun
  pending := hp
  ownership s h ht hsome := by
    rw [hfin]
    rcases h with rfl | ⟨c, hc, -⟩
    · refine C.ownership _ ?_ ht hsome
      rcases hs with h | ⟨-, h⟩
      · exact .inl h
      · exact .inr (h ht)
    · exact absurd ((hfree .transition).symm.trans hc) nofun
  acknowledged := ha ▸ C.acknowledged
  last m s h := .inr (hlast m s (ha ▸ h))
  submissions := by
    rw [hsub, ha]
    exact C.submissions

/-- The last acknowledged snapshot is the candidate's. -/
theorem Protocol.last (P : Protocol O w) (h : w.slot σ = some c) (hack : c.attempt = .acknowledged)
    {m : ℕ} (hl : w.acknowledged.getLast? = some (m, s)) : s = c.snapshot := by
  obtain ⟨m', hl'⟩ := P.last_acknowledged h hack
  cases hl.symm.trans hl'
  rfl

theorem Contents.move (P : Protocol O w) (C : Contents O w) (m : Move O K w v) : Contents O v := by
  cases m with
  | writer | cancel | gate | authorize =>
    exact C.frame (.refl _) C.owned rfl (fun _ => rfl) rfl (fun o ho => ⟨o, ho, rfl⟩) rfl rfl
  | ledger m =>
    exact C.frame m.evolves (m.owned C.owned) rfl (fun _ => rfl) rfl (fun o ho => ⟨o, ho, rfl⟩) rfl rfl
  | @capture effect s ht hp _ hc =>
    have S := Suits.captured C.snapshot C.owned hc
    refine C.capture P ht hp (.refl _) C.owned rfl rfl rfl rfl S fun s' hs' => ?_
    rcases hs' with rfl | rfl
    · exact C.ownership _ (.inl rfl)
    · rw [hc.finalization]
      exact fun _ => C.ownership _ (.inl rfl) S.live
  | finalize hc =>
    obtain ⟨-, hp, ht, -, hn, hs, hl⟩ := checkFinalization_ok hc
    obtain ⟨-, -, hl'⟩ := beginFinalization_ok hl
    refine C.capture P ht hp (hl' ▸ .of_records rfl fun h => h) (hl' ▸ C.owned) rfl rfl rfl rfl
      (.finalize C.snapshot C.owned hn hs hl) fun s' hs' _ hf => ?_
    rcases hs' with rfl | rfl
    · rw [C.snapshot.advance (advanceSnapshot_ok hs).1] at hf
      cases hf
    · refine ⟨_, rfl, fun _ f hf => ?_⟩
      cases hf
      rfl
  | issue hc =>
    refine C.frame (.refl _) C.owned rfl (fun _ => rfl) rfl (fun o ho => ⟨_, rfl, ?_⟩) rfl rfl
    cases (checkControl_ok hc).symm.trans ho
    rfl
  | close hc =>
    obtain ⟨ho, hprep, hp, -, ht, hph, hl⟩ := checkOutcome_ok hc
    have hopen : ∀ f ∈ w.snapshot.finalization, f.outcome = none := by
      intro f hf
      obtain ⟨o, ho', himp⟩ := C.ownership w.snapshot (.inl rfl) (by rw [hph]; rfl) (by rw [hf]; rfl)
      cases ho.symm.trans ho'
      exact himp hprep f hf
    obtain ⟨-, -, hl'⟩ := sealRecords_ok hl
    exact C.capture P ht hp (hl' ▸ .of_records rfl fun _ => rfl) (hl' ▸ C.owned) rfl rfl rfl rfl
      (.close C.snapshot C.owned hph hopen hl) fun s' _ _ _ => ⟨_, rfl, nofun⟩
  | @complete result terminal ledger records effects hc =>
    obtain ⟨hp, -, ht, hph, hr, hl⟩ := checkCompletion_ok hc
    obtain ⟨-, -, hl'⟩ := sealRecords_ok hl
    have E : Evolves w.ledger ledger := hl' ▸ .of_records rfl fun _ => rfl
    refine ⟨hl' ▸ C.owned, E.fits C.snapshot, fun c h => (C.transition c h).frame E rfl, ?_, C.ownership,
      C.acknowledged, C.last, C.submissions⟩
    rintro s ⟨⟩
    exact .complete C.snapshot C.owned hph hr hl
  | retain hc hn =>
    refine ⟨C.owned, C.snapshot, fun c h => (C.transition c h).frame (.refl _) rfl,
      fun s h => (C.pending s h).frame (.refl _) rfl, C.ownership, C.acknowledged, fun m s hl => ?_,
      C.submissions⟩
    rcases C.last m s hl with ⟨τ, d, hd, hack⟩ | hk
    · cases τ with
      | transition => exact .inl ⟨.transition, d, hd, hack⟩
      | completion => exact absurd (hn.symm.trans hd) nofun
    · exact .inr hk
  | progress h hp => exact C.progress P h hp
  | @consume c hc hack he =>
    have hfree := P.slot_free (σ := .transition) (τ := .completion) hc nofun
    refine C.release rfl rfl (fun τ => ?_) (fun s h => (C.pending s h).frame (.refl _) rfl) (.inl rfl)
      (fun m s hl => ?_) rfl rfl
    · cases τ
      · rfl
      · exact hfree
    · cases P.last (σ := .transition) hc hack hl
      exact .of_eq ((C.transition c hc).same he).symm
  | @publishPhase c hc hack he =>
    have hfree := P.slot_free (σ := .transition) (τ := .completion) hc nofun
    refine C.release rfl rfl (fun τ => ?_) (fun s h => ?_)
      (.inr ⟨(C.transition c hc).fits, fun _ => ⟨c, hc, rfl⟩⟩) (fun m s hl => ?_) rfl rfl
    · cases τ
      · rfl
      · exact hfree
    · have h : w.pendingCompletion = some s := h
      rw [P.exclusive (by rw [h]; rfl)] at hc
      cases hc
    · cases P.last (σ := .transition) hc hack hl
      exact .refl _
  | @publishCompletion c snapshot hc hack hph hp =>
    have hfree := P.slot_free (σ := .completion) (τ := .transition) hc nofun
    have S := C.pending snapshot hp
    refine C.release rfl rfl (fun τ => ?_) (fun s h => ?_) (.inr ⟨S.fits, fun h => ?_⟩)
      (fun m s hl => ?_) rfl rfl
    · cases τ
      · exact hfree
      · rfl
    · cases h
    · have h : snapshot.phase.isTerminal = false := h
      exact nomatch S.terminal.symm.trans h
    · cases P.last (σ := .completion) hc hack hl
      cases hp.symm.trans (P.completion c hc)
      exact .refl _

end

end Operation

end LuaSkills.Embedded
