import LuaSkills.Embedded.Journal.Record

/-!
# Evidence under one key

The abstract journal: what may happen to the record kept for one operation, without bytes, rows or
transactions. A record is inserted at revision one, replaced by successors that keep its context and
its finalization evidence, attested once, and deleted when nothing about it is unresolved.
`JournalOperation.Extends` collects what holds between two records of one lineage, the records of a
key between two deletions; it is reflexive, transitive and contains every `EvidenceStep` between two
records.
-/

namespace LuaSkills.Embedded

def OperationSnapshot.KeepsFinalization (previous next : OperationSnapshot) : Prop :=
  ∀ f ∈ previous.finalization, ∃ f' ∈ next.finalization, OperationSnapshot.FinalizationKept f f'

namespace OperationSnapshot
variable {s s₁ s₂ s₃ : OperationSnapshot}

theorem FinalizationKept.refl (f : OperationFinalization) : FinalizationKept f f :=
  ⟨rfl, .refl _, rfl, fun o h => ⟨o, h, .refl _⟩⟩

theorem FinalizationKept.trans (h₁ : FinalizationKept f₁ f₂) (h₂ : FinalizationKept f₂ f₃) :
    FinalizationKept f₁ f₃ := by
  refine ⟨h₁.1.trans h₂.1, h₁.2.1.trans h₂.2.1, h₁.2.2.1.trans h₂.2.2.1, fun o ho => ?_⟩
  obtain ⟨o', ho', hs⟩ := h₁.2.2.2 o ho
  obtain ⟨o'', ho'', hs'⟩ := h₂.2.2.2 o' ho'
  exact ⟨o'', ho'', hs'.trans hs⟩

theorem KeepsFinalization.of_eq (h : s₂.finalization = s₁.finalization) : s₁.KeepsFinalization s₂ :=
  fun f hf => ⟨f, h.trans hf, .refl f⟩

theorem KeepsFinalization.refl (s : OperationSnapshot) : s.KeepsFinalization s := .of_eq rfl

theorem KeepsFinalization.trans (h₁ : s₁.KeepsFinalization s₂) (h₂ : s₂.KeepsFinalization s₃) :
    s₁.KeepsFinalization s₃ := by
  intro f hf
  obtain ⟨f', hf', hk⟩ := h₁ f hf
  obtain ⟨f'', hf'', hk'⟩ := h₂ f' hf'
  exact ⟨f'', hf'', hk.trans hk'⟩

theorem validateFinalizationSuccessor_eq_ok :
    s.validateFinalizationSuccessor previous = .ok () ↔ previous.KeepsFinalization s := by
  unfold validateFinalizationSuccessor KeepsFinalization
  cases previous.finalization with
  | none => simp
  | some original => simp [Except.bind_eq_ok]

end OperationSnapshot

inductive EvidenceStep : Option JournalOperation → Option JournalOperation → Prop
  | insert {r : JournalOperation} : r.revision = 1 → r.reconciliation = none →
    EvidenceStep none (some r)
  | replace {r r' : JournalOperation} : r'.revision = r.revision + 1 →
    r'.snapshot.context = r.snapshot.context → r.snapshot.KeepsFinalization r'.snapshot →
    r.reconciliation = none → r'.reconciliation = none → EvidenceStep (some r) (some r')
  | attest {r : JournalOperation} (resolution : OperationReconciliation) :
    r.reconciliation = none →
    EvidenceStep (some r)
      (some { r with revision := r.revision + 1, reconciliation := some resolution })
  | delete {r : JournalOperation} : r.resolved → EvidenceStep (some r) none

/-- `r'` is `r` or a later record of the same lineage. -/
structure JournalOperation.Extends (r r' : JournalOperation) : Prop where
  revision_le : r.revision ≤ r'.revision
  eq_of_revision : r'.revision = r.revision → r' = r
  context : r'.snapshot.context = r.snapshot.context
  finalization : r.snapshot.KeepsFinalization r'.snapshot
  reconciled : r.reconciliation.isSome → r' = r

namespace JournalOperation.Extends
variable {r r₁ r₂ r₃ : JournalOperation}

theorem refl (r : JournalOperation) : r.Extends r :=
  ⟨Nat.le_refl _, fun _ => rfl, rfl, .refl _, fun _ => rfl⟩

theorem trans (h₁ : r₁.Extends r₂) (h₂ : r₂.Extends r₃) : r₁.Extends r₃ where
  revision_le := h₁.revision_le.trans h₂.revision_le
  eq_of_revision h := by
    have hr : r₂.revision = r₁.revision :=
      Nat.le_antisymm (h ▸ h₂.revision_le) h₁.revision_le
    rw [h₂.eq_of_revision (h.trans hr.symm), h₁.eq_of_revision hr]
  context := h₂.context.trans h₁.context
  finalization := h₁.finalization.trans h₂.finalization
  reconciled h := by
    have := h₁.reconciled h
    subst this
    exact h₂.reconciled h

theorem of_step (h : EvidenceStep (some r₁) (some r₂)) : r₁.Extends r₂ := by
  cases h with
  | replace hr hc hf h₁ h₂ =>
    exact ⟨by omega, fun e => by omega, hc, hf, fun h => by simp [h₁] at h⟩
  | attest resolution h₁ =>
    exact ⟨Nat.le_succ _, fun e => absurd e (Nat.succ_ne_self _), rfl, .refl _,
      fun h => by simp [h₁] at h⟩

end JournalOperation.Extends

/-- A change that leaves a record raises the revision by exactly one, starting from one. -/
theorem EvidenceStep.revision (h : EvidenceStep o (some r')) :
    r'.revision = (o.map JournalOperation.revision).getD 0 + 1 := by
  cases h with
  | insert hr => exact hr
  | replace hr => exact hr
  | attest => rfl

end LuaSkills.Embedded
