import LuaSkills.Embedded.Journal.Record

/-!
# What a reconciliation attests

The effects of an operation are merged into the strongest of them: an unknown one decides, then a
committed one, a rolled back one and one that does not apply. A resolution is accepted exactly when it
resolves every effect of the snapshot, keeps what was known and claims an aggregate that its own effects
do not exceed.
-/

namespace LuaSkills.Embedded

open List HostEffectRecord

/-! ## The order of effects -/

def EffectState.rank : EffectState → ℕ
  | .notStarted => 0
  | .notApplicable => 1
  | .rolledBack => 2
  | .committed => 3
  | .unknown => 4

def HostEffectRecord.evidence (r : HostEffectRecord) : EffectState :=
  if r.phase = .completed then r.effects else .unknown

variable {base : EffectState} {records : List HostEffectRecord} {r : HostEffectRecord}

theorem EffectState.rank_injective : Function.Injective EffectState.rank := by
  intro e e' h
  cases e <;> cases e' <;> first | rfl | cases h

theorem EffectState.rank_le (e : EffectState) : e.rank ≤ 4 := by
  cases e <;> decide

theorem HostEffectRecord.evidence_eq_unknown :
    r.evidence = .unknown ↔ r.phase ≠ .completed ∨ r.effects = .unknown := by
  unfold evidence
  split
  next h => exact ⟨.inr, fun h' => h'.resolve_left fun hne => hne h⟩
  next h => exact ⟨fun _ => .inl h, fun _ => rfl⟩

theorem HostEffectRecord.evidence_eq (h : r.evidence ≠ .unknown) : r.evidence = e ↔ r.effects = e := by
  unfold evidence at h ⊢
  split
  next => exact Iff.rfl
  next hp => exact absurd (if_neg hp) h

def Among (base : EffectState) (records : List HostEffectRecord) (e : EffectState) : Prop :=
  base = e ∨ ∃ r ∈ records, r.evidence = e

theorem among_unknown : Among base records .unknown ↔
    base = .unknown ∨ records.any fun r => r.phase ≠ .completed ∨ r.effects = .unknown := by
  simp only [Among, any_eq_true, decide_eq_true_eq, evidence_eq_unknown]

theorem among_known (h : ¬ Among base records .unknown) :
    Among base records e ↔ base = e ∨ records.any fun r => r.effects = e := by
  have hne : ∀ r ∈ records, r.evidence ≠ .unknown := fun r hr hu => h (.inr ⟨r, hr, hu⟩)
  simp only [Among, any_eq_true, decide_eq_true_eq]
  exact or_congr_right <| exists_congr fun r => and_congr_right fun hr =>
    evidence_eq (hne r hr)

theorem mergeEffects_branch (base : EffectState) (records : List HostEffectRecord) : ∃ e, mergeEffects base records = e ∧ Among base records e ∧
    ∀ e', e.rank < e'.rank → ¬ Among base records e' := by
  unfold mergeEffects
  split
  next h => exact ⟨_, rfl, among_unknown.2 h, fun e' he' => absurd e'.rank_le (Nat.not_le.2 he')⟩
  next hu =>
  rw [← among_unknown] at hu
  split
  next h =>
    refine ⟨_, rfl, (among_known hu).2 h, fun e' he' => ?_⟩
    cases e' <;> first | exact hu | exact absurd he' (by decide)
  next hc =>
  rw [← among_known hu] at hc
  split
  next h =>
    refine ⟨_, rfl, (among_known hu).2 h, fun e' he' => ?_⟩
    cases e' <;> first | exact hu | exact hc | exact absurd he' (by decide)
  next hr =>
  rw [← among_known hu] at hr
  split
  next h =>
    refine ⟨_, rfl, (among_known hu).2 h, fun e' he' => ?_⟩
    cases e' <;> first | exact hu | exact hc | exact hr | exact absurd he' (by decide)
  next ha =>
  rw [← among_known hu] at ha
  refine ⟨_, rfl, .inl ?_, fun e' he' => ?_⟩
  · cases base with
    | notStarted => rfl
    | notApplicable => exact absurd (.inl rfl) ha
    | rolledBack => exact absurd (.inl rfl) hr
    | committed => exact absurd (.inl rfl) hc
    | unknown => exact absurd (.inl rfl) hu
  · cases e' <;> first | exact hu | exact hc | exact hr | exact ha | exact absurd he' (by decide)

theorem le_mergeEffects : base.rank ≤ (mergeEffects base records).rank ∧
    ∀ r ∈ records, r.evidence.rank ≤ (mergeEffects base records).rank := by
  obtain ⟨e, he, -, hmax⟩ := mergeEffects_branch base records
  have hle : ∀ e', Among base records e' → e'.rank ≤ e.rank := fun e' h' =>
    Nat.le_of_not_lt fun hlt => hmax e' hlt h'
  rw [he]
  exact ⟨hle _ (.inl rfl), fun r hr => hle _ (.inr ⟨r, hr, rfl⟩)⟩

theorem mergeEffects_le : (mergeEffects base records).rank ≤ n ↔
    base.rank ≤ n ∧ ∀ r ∈ records, r.evidence.rank ≤ n := by
  constructor
  · intro h
    exact ⟨le_mergeEffects.1.trans h, fun r hr => (le_mergeEffects.2 r hr).trans h⟩
  · rintro ⟨hbase, hrecords⟩
    obtain ⟨e, he, hamong, -⟩ := mergeEffects_branch base records
    rw [he]
    rcases hamong with rfl | ⟨r, hr, rfl⟩
    · exact hbase
    · exact hrecords r hr

theorem mergeEffects_eq_base : mergeEffects base records = base ↔
    ∀ r ∈ records, r.evidence.rank ≤ base.rank := by
  constructor
  · intro h r hr
    exact h ▸ le_mergeEffects.2 r hr
  · intro h
    exact EffectState.rank_injective (Nat.le_antisymm (mergeEffects_le.2 ⟨Nat.le_refl _, h⟩) le_mergeEffects.1)

theorem mergeEffects_idem : mergeEffects (mergeEffects base records) records = mergeEffects base records :=
  mergeEffects_eq_base.2 le_mergeEffects.2

/-! ## Resolutions -/

namespace OperationReconciliation
variable {originals projected : List HostEffectRecord} {resolutions : List HostEffectReconciliation}
  {seen : List String}

def settleEffect (original : HostEffectRecord) (resolution : HostEffectReconciliation) : HostEffectRecord :=
  { original with effects := resolution.effects.toEffectState, phase := .completed }

/-- Every effect is resolved once, in order, and what was known stays. -/
structure Resolves (originals : List HostEffectRecord) (resolutions : List HostEffectReconciliation) :
    Prop where
  identities : resolutions.map (·.effectId) = originals.map (·.effectId)
  named : ∀ original ∈ originals, original.effectId.isEmpty = false
  distinct : (originals.map (·.effectId)).Nodup
  evidence : ∀ resolution ∈ resolutions, trimIsEmpty resolution.evidence = false
  known : ∀ x ∈ originals.zip resolutions, x.1.effects ≠ .unknown →
    x.1.effects = x.2.effects.toEffectState

theorem Resolves.nil : Resolves [] [] where
  identities := rfl
  named _ h := absurd h not_mem_nil
  distinct := .nil
  evidence _ h := absurd h not_mem_nil
  known _ h := absurd h not_mem_nil

variable {original : HostEffectRecord} {resolution : HostEffectReconciliation}

theorem Resolves.cons : Resolves (original :: originals) (resolution :: resolutions) ↔
    Resolves originals resolutions ∧ original.effectId.isEmpty = false ∧
      original.effectId = resolution.effectId ∧ original.effectId ∉ originals.map (·.effectId) ∧
      trimIsEmpty resolution.evidence = false ∧
      (original.effects ≠ .unknown → original.effects = resolution.effects.toEffectState) := by
  constructor
  · intro R
    have hids := cons_eq_cons.1 R.identities
    have hdistinct := nodup_cons.1 R.distinct
    refine ⟨⟨hids.2, ?_, hdistinct.2, ?_, ?_⟩, ?_, hids.1.symm, hdistinct.1, ?_, ?_⟩
    · exact fun o ho => R.named o (mem_cons_of_mem _ ho)
    · exact fun r hr => R.evidence r (mem_cons_of_mem _ hr)
    · exact fun x hx => R.known x (mem_cons_of_mem _ hx)
    · exact R.named _ mem_cons_self
    · exact R.evidence _ mem_cons_self
    · exact R.known (original, resolution) mem_cons_self
  · rintro ⟨R, hnamed, hid, hnot, hevidence, hknown⟩
    refine ⟨?_, ?_, ?_, ?_, ?_⟩
    · rw [map_cons, map_cons, R.identities, hid]
    · exact forall_mem_cons.2 ⟨hnamed, R.named⟩
    · exact nodup_cons.2 ⟨hnot, R.distinct⟩
    · exact forall_mem_cons.2 ⟨hevidence, R.evidence⟩
    · exact forall_mem_cons.2 ⟨hknown, R.known⟩

theorem project_ok (hlen : originals.length = resolutions.length) :
    project originals resolutions seen = .ok projected ↔
      Resolves originals resolutions ∧ (∀ original ∈ originals, original.effectId ∉ seen) ∧
        projected = originals.zipWith settleEffect resolutions := by
  induction originals generalizing resolutions seen projected with
  | nil =>
    cases resolutions with
    | nil =>
      simp only [project, Except.ok.injEq]
      exact ⟨fun h => ⟨.nil, forall_mem_nil _, h.symm⟩, fun h => h.2.2.symm⟩
    | cons => cases hlen
  | cons original rest ih =>
    cases resolutions with
    | nil => cases hlen
    | cons resolution resolutions =>
      have hlen : rest.length = resolutions.length := Nat.succ.inj hlen
      rw [Resolves.cons]
      simp only [project, Except.bind_eq_ok, refuseIf_eq_ok, ih hlen, not_or, not_and, not_not,
        Bool.not_eq_true]
      constructor
      · rintro ⟨-, ⟨hnamed, hid, hseen, hevidence, hknown⟩, _, ⟨R, hrest, rfl⟩, heq⟩
        cases heq
        refine ⟨⟨R, hnamed, hid, ?_, hevidence, hknown⟩, ?_, rfl⟩
        · intro hmem
          obtain ⟨o, ho, heq⟩ := mem_map.1 hmem
          exact hrest o ho (heq ▸ mem_cons_self)
        · refine forall_mem_cons.2 ⟨hseen, fun o ho h => ?_⟩
          exact hrest o ho (mem_cons_of_mem _ h)
      · rintro ⟨⟨R, hnamed, hid, hnot, hevidence, hknown⟩, hseen, rfl⟩
        obtain ⟨hhead, htail⟩ := forall_mem_cons.1 hseen
        refine ⟨(), ⟨hnamed, hid, hhead, hevidence, hknown⟩, _, ⟨R, fun o ho h => ?_, rfl⟩, rfl⟩
        rcases mem_cons.1 h with heq | h
        · exact hnot (heq ▸ mem_map_of_mem ho)
        · exact htail o ho h

theorem Resolves.length_eq (R : Resolves originals resolutions) : originals.length = resolutions.length := by
  have h := congrArg length R.identities
  simpa only [length_map] using h.symm

/-! ## Acceptance -/

variable {r : OperationReconciliation} {s : OperationSnapshot}

/-- The attestation names itself and its evidence, and agrees with how the execution was seen to end. -/
structure Complete (r : OperationReconciliation) (s : OperationSnapshot) : Prop where
  resolutionId : trimIsEmpty r.resolutionId = false
  resolver : trimIsEmpty r.resolver = false
  evidence : trimIsEmpty r.evidence = false
  execution : r.execution = .observedTerminal ↔ s.phase.isTerminal

def resolvedEffects (r : OperationReconciliation) (s : OperationSnapshot) : List HostEffectRecord :=
  s.hostEffects.zipWith settleEffect r.hostEffects

theorem validate_ok : r.validate s = .ok () ↔ r.Complete s ∧ Resolves s.hostEffects r.hostEffects ∧
    (s.effects ≠ .unknown → s.effects = r.effects.toEffectState) ∧
    mergeEffects r.effects.toEffectState (r.resolvedEffects s) = r.effects.toEffectState := by
  simp only [validate, Except.bind_eq_ok, refuseIf_eq_ok, not_or, not_and, not_not, Bool.not_eq_true]
  constructor
  · rintro ⟨-, ⟨hid, hresolver, hevidence, hexecution, hlen⟩, -, hknown, projected, hproject, hmerge⟩
    obtain ⟨R, -, rfl⟩ := (project_ok hlen.symm).1 hproject
    refine ⟨⟨hid, hresolver, hevidence, ?_⟩, R, hknown, hmerge⟩
    rw [← hexecution, decide_eq_true_eq]
  · rintro ⟨hcomplete, R, hknown, hmerge⟩
    refine ⟨(), ⟨hcomplete.resolutionId, hcomplete.resolver, hcomplete.evidence, ?_, R.length_eq.symm⟩,
      (), hknown, _, (project_ok R.length_eq).2 ⟨R, fun _ _ => not_mem_nil, rfl⟩, hmerge⟩
    exact Bool.eq_iff_iff.2 (by rw [decide_eq_true_eq]; exact hcomplete.execution)

/-- What an accepted attestation says. -/
structure Attests (r : OperationReconciliation) (s : OperationSnapshot) : Prop where
  identities : r.hostEffects.map (·.effectId) = s.hostEffects.map (·.effectId)
  distinct : (r.hostEffects.map (·.effectId)).Nodup
  outcomes : ∀ x ∈ s.hostEffects.zip r.hostEffects, x.1.effects ≠ .unknown →
    x.1.effects = x.2.effects.toEffectState
  aggregate : s.effects ≠ .unknown → s.effects = r.effects.toEffectState
  merged : mergeEffects r.effects.toEffectState (r.resolvedEffects s) = r.effects.toEffectState
  committed : ∀ e ∈ r.hostEffects, e.effects = .committed → r.effects = .committed

theorem mem_resolvedEffects (R : Resolves s.hostEffects r.hostEffects) (he : e ∈ r.hostEffects) :
    ∃ x ∈ r.resolvedEffects s, x.evidence = e.effects.toEffectState := by
  obtain ⟨i, hi, rfl⟩ := mem_iff_getElem.1 he
  have hi' : i < s.hostEffects.length := R.length_eq ▸ hi
  refine ⟨settleEffect s.hostEffects[i] r.hostEffects[i], ?_, rfl⟩
  refine mem_iff_getElem.2 ⟨i, ?_, ?_⟩
  · rw [resolvedEffects, length_zipWith]
    exact lt_min hi' hi
  · simp only [resolvedEffects, getElem_zipWith]

theorem evidence_resolvedEffects (hx : x ∈ r.resolvedEffects s) : x.evidence ≠ .unknown := by
  rw [resolvedEffects, ← map_uncurry_zip_eq_zipWith] at hx
  obtain ⟨⟨_, ⟨_, effects, _⟩⟩, -, rfl⟩ := mem_map.1 hx
  cases effects <;> exact nofun

/-- Every accepted attestation covers the effects of the snapshot and contradicts nothing known. -/
theorem attests_of_validate (h : r.validate s = .ok ()) : r.Attests s := by
  obtain ⟨-, R, hknown, hmerge⟩ := validate_ok.1 h
  refine ⟨R.identities, R.identities ▸ R.distinct, R.known, hknown, hmerge, fun e he hc => ?_⟩
  obtain ⟨x, hx, hxe⟩ := mem_resolvedEffects R he
  have hle := mergeEffects_eq_base.1 hmerge x hx
  rw [hxe, hc] at hle
  revert hle
  generalize r.effects = effects
  cases effects <;> decide

/-! ## Attestations that can be accepted -/

/-- The snapshot names its effects apart, and a known aggregate is the merge of what it covers. -/
structure Merged (s : OperationSnapshot) : Prop where
  named : ∀ original ∈ s.hostEffects, original.effectId.isEmpty = false
  distinct : (s.hostEffects.map (·.effectId)).Nodup
  known : s.effects ≠ .unknown → mergeEffects s.effects s.hostEffects = s.effects

/-- The attestation resolves every effect of the snapshot and contradicts nothing known of them. -/
structure Consistent (r : OperationReconciliation) (s : OperationSnapshot) : Prop where
  complete : r.Complete s
  identities : r.hostEffects.map (·.effectId) = s.hostEffects.map (·.effectId)
  evidence : ∀ e ∈ r.hostEffects, trimIsEmpty e.evidence = false
  outcomes : ∀ x ∈ s.hostEffects.zip r.hostEffects, x.1.effects ≠ .unknown →
    x.1.effects = x.2.effects.toEffectState

theorem Consistent.resolves (C : r.Consistent s) (M : Merged s) : Resolves s.hostEffects r.hostEffects :=
  ⟨C.identities, M.named, M.distinct, C.evidence, C.outcomes⟩

theorem exists_resolved (h : e ≠ .unknown) :
    ∃ aggregate : ResolvedEffectState, aggregate.toEffectState = e := by
  cases e with
  | notStarted => exact ⟨.notStarted, rfl⟩
  | notApplicable => exact ⟨.notApplicable, rfl⟩
  | committed => exact ⟨.committed, rfl⟩
  | rolledBack => exact ⟨.rolledBack, rfl⟩
  | unknown => exact absurd rfl h

theorem mergeEffects_resolved :
    mergeEffects .notStarted (r.resolvedEffects s) ≠ .unknown := by
  intro h
  obtain ⟨e, he, hamong, -⟩ :=
    mergeEffects_branch .notStarted (r.resolvedEffects s)
  cases h.symm.trans he
  rcases hamong with h | ⟨x, hx, hu⟩
  · cases h
  · exact evidence_resolvedEffects hx hu

/-- A known aggregate covers effects that are completed and known, and a resolution keeps them. -/
theorem mergeEffects_known (M : Merged s) (C : r.Consistent s) (h : s.effects ≠ .unknown) :
    mergeEffects s.effects (r.resolvedEffects s) = s.effects := by
  have hle := mergeEffects_eq_base.1 (M.known h)
  refine mergeEffects_eq_base.2 fun x hx => ?_
  rw [resolvedEffects, ← map_uncurry_zip_eq_zipWith] at hx
  obtain ⟨⟨original, resolution⟩, hmem, rfl⟩ := mem_map.1 hx
  have horiginal := hle original (of_mem_zip hmem).1
  -- an unknown outcome would be the aggregate
  have hknown : original.evidence ≠ .unknown := by
    intro hu
    rw [hu] at horiginal
    exact h (EffectState.rank_injective (Nat.le_antisymm s.effects.rank_le horiginal))
  have heffects : original.effects = original.evidence :=
    (evidence_eq hknown).1 rfl
  have heq := C.outcomes _ hmem (heffects ▸ hknown)
  rw [← heffects, heq] at horiginal
  exact horiginal

/-- Consistent resolutions of a merged snapshot have an aggregate that is accepted. -/
theorem exists_aggregate (M : Merged s) (C : r.Consistent s) :
    ∃ aggregate, { r with effects := aggregate }.validate s = .ok () := by
  have accept : ∀ aggregate : ResolvedEffectState,
      (s.effects ≠ .unknown → s.effects = aggregate.toEffectState) →
      mergeEffects aggregate.toEffectState (r.resolvedEffects s) = aggregate.toEffectState →
      { r with effects := aggregate }.validate s = .ok () := by
    intro aggregate hknown hmerge
    have D : { r with effects := aggregate }.Complete s :=
      ⟨C.complete.resolutionId, C.complete.resolver, C.complete.evidence, C.complete.execution⟩
    exact validate_ok.2 ⟨D, C.resolves M, hknown, hmerge⟩
  by_cases h : s.effects = .unknown
  · obtain ⟨aggregate, ha⟩ := exists_resolved (mergeEffects_resolved (r := r) (s := s))
    refine ⟨aggregate, accept aggregate (absurd h) ?_⟩
    rw [ha, mergeEffects_idem]
  · obtain ⟨aggregate, ha⟩ := exists_resolved h
    refine ⟨aggregate, accept aggregate (fun _ => ha.symm) ?_⟩
    rw [ha, mergeEffects_known M C h]

/-- An effect that was running when its host stopped, resolved as committed. -/
example :
    let caller : CapabilityCaller := ⟨"rt", "p", "g", "x", "s", "op", none, none, none⟩
    let s : OperationSnapshot := ⟨none, .unbound, [⟨caller, "op:effect:1", "r", "c", "1", none, .running,
      .unknown⟩], "op", .running, false, .unknown, none, none⟩
    let attest := fun effects : ResolvedEffectState => (⟨"id", "host", "log", .stoppedWithoutResult, effects,
      [⟨"op:effect:1", .committed, "receipt"⟩]⟩ : OperationReconciliation).validate s
    attest .committed = .ok () ∧ attest .rolledBack ≠ .ok () := by
  decide +kernel

end OperationReconciliation

end LuaSkills.Embedded
