import Mathlib.Data.List.Induction
import Mathlib.Data.List.Nodup

/-!
# Event logs

A log in which every event was legal when it was appended, given the events before it. Legality is
checked once, at the append; what it says about the order of two events then holds for the whole log.
-/

open List

section
variable {E : Type} {P : List E → E → Prop} {log : List E} {e : E}

/-- Every event is legal after the events before it. -/
def LegalLog (P : List E → E → Prop) (log : List E) : Prop :=
  ∀ before e after, log = before ++ e :: after → P before e

theorem LegalLog.nil : LegalLog P [] := by
  intro before e after h
  simp at h

theorem LegalLog.append (h : LegalLog P log) (he : P log e) : LegalLog P (log ++ [e]) := by
  intro before e' after heq
  rcases eq_nil_or_concat after with rfl | ⟨after, last, rfl⟩
  · obtain ⟨rfl, hl⟩ := append_inj' heq rfl
    cases hl
    exact he
  · rw [concat_eq_append, ← cons_append, ← append_assoc] at heq
    obtain ⟨rfl, -⟩ := append_inj' heq rfl
    exact h before e' after rfl

theorem LegalLog.appendAll {more : List E} (h : LegalLog P log) (hmore : ∀ before, ∀ e ∈ more, P before e) :
    LegalLog P (log ++ more) := by
  induction more generalizing log with
  | nil => rwa [append_nil]
  | cons e more ih =>
    rw [append_cons]
    exact ih (h.append (hmore log e mem_cons_self)) fun before e' he' =>
      hmore before e' (mem_cons_of_mem e he')

theorem LegalLog.of_append (h : LegalLog P (log ++ [e])) : LegalLog P log ∧ P log e := by
  refine ⟨fun before e' after heq => h before e' (after ++ [e]) ?_, h log e [] rfl⟩
  rw [heq, append_assoc, cons_append]

theorem LegalLog.of_mem (h : LegalLog P log) (he : e ∈ log) :
    ∃ before after, log = before ++ e :: after ∧ P before e := by
  obtain ⟨before, after, rfl⟩ := append_of_mem he
  exact ⟨before, after, rfl, h before e after rfl⟩

/-- An event of the log is among the first ones, or was legal after all of these. -/
theorem LegalLog.mem_or_legal {first : List E} (h : LegalLog P (first ++ last)) (he : e ∈ first ++ last) :
    e ∈ first ∨ ∃ before, first ⊆ before ∧ P before e := by
  rcases mem_append.1 he with he | he
  · exact .inl he
  · obtain ⟨mid, after, rfl⟩ := append_of_mem he
    refine .inr ⟨first ++ mid, subset_append_left _ _, h _ e after ?_⟩
    rw [append_assoc]

/-- Of two different events of the log, the later one was legal after the earlier one. -/
theorem LegalLog.eq_or_legal (h : LegalLog P log) (he : e ∈ log) (he' : e' ∈ log) :
    e = e' ∨ (∃ before, e ∈ before ∧ P before e') ∨ ∃ before, e' ∈ before ∧ P before e := by
  obtain ⟨before, after, rfl, hP⟩ := h.of_mem he
  rcases mem_append.1 he' with he' | he'
  · exact .inr (.inr ⟨before, he', hP⟩)
  rcases mem_cons.1 he' with rfl | he'
  · exact .inl rfl
  · obtain ⟨mid, last, rfl⟩ := append_of_mem he'
    refine .inr (.inl ⟨before ++ e :: mid, by simp, h _ e' last ?_⟩)
    rw [append_assoc, cons_append]

/-- An event that is never legal after itself occurs once. -/
theorem LegalLog.once (h : LegalLog P log) (he : e ∈ log) (hP : ∀ before, P before e → e ∉ before) :
    ∃ before after, log = before ++ e :: after ∧ P before e ∧ e ∉ before ∧ e ∉ after := by
  obtain ⟨before, after, rfl, hlegal⟩ := h.of_mem he
  refine ⟨before, after, rfl, hlegal, hP before hlegal, fun hafter => ?_⟩
  obtain ⟨mid, last, rfl⟩ := append_of_mem hafter
  have hagain : P (before ++ e :: mid) e := h _ e last (by rw [append_assoc, cons_append])
  exact hP _ hagain (mem_append_right _ mem_cons_self)

/-- What no legal event repeats occurs once. -/
theorem LegalLog.nodup_filterMap {α : Type} {f : E → Option α} (h : LegalLog P log)
    (hf : ∀ before e e' a, LegalLog P before → P before e → e' ∈ before → f e = some a → f e' ≠ some a) :
    (log.filterMap f).Nodup := by
  induction log using reverseRecOn with
  | nil => exact nodup_nil
  | append_singleton log e ih =>
    obtain ⟨hlog, he⟩ := h.of_append
    rw [filterMap_append]
    cases hfe : f e with
    | none => simpa [hfe] using ih hlog
    | some a =>
      have ha : a ∉ log.filterMap f := by
        intro hmem
        obtain ⟨e', he', hfe'⟩ := mem_filterMap.1 hmem
        exact hf log e e' a hlog he he' hfe hfe'
      simpa [hfe, nodup_append, nodup_singleton] using
        ⟨ih hlog, fun b e' he' hfe' hba => ha (mem_filterMap.2 ⟨e', he', hba ▸ hfe'⟩)⟩

end
