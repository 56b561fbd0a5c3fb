import Mathlib.Data.List.Basic

/-!
# Obligations in a log

Some events of a log owe something: what they owe is paid by a later event, or still waits. The state
that a log leads to says what waits.
-/

section
variable {E α : Type} {owes pays : E → α → Prop} {waits waits' : α → Prop} {log more : List E}

/-- What an event of the log owes still waits or is paid by a later event. -/
def PaidLog (owes pays : E → α → Prop) (waits : α → Prop) (log : List E) : Prop :=
  ∀ before e after a, log = before ++ e :: after → owes e a → waits a ∨ ∃ e' ∈ after, pays e' a

theorem PaidLog.nil : PaidLog owes pays waits [] := by
  intro before e after a h
  simp at h

/-- The log goes on: what waited goes on waiting or is paid, and what the new events owe waits. -/
theorem PaidLog.append (h : PaidLog owes pays waits log)
    (hold : ∀ a, waits a → waits' a ∨ ∃ e ∈ more, pays e a)
    (hnew : ∀ e ∈ more, ∀ a, owes e a → waits' a) : PaidLog owes pays waits' (log ++ more) := by
  intro before e after a heq howes
  rcases List.append_eq_append_iff.1 heq with ⟨mid, -, hmore⟩ | ⟨mid, hlog, hafter⟩
  · exact .inl (hnew e (by simp [hmore]) a howes)
  cases mid with
  | nil =>
    obtain rfl : e :: after = more := hafter
    exact .inl (hnew e List.mem_cons_self a howes)
  | cons e' mid =>
    obtain ⟨rfl, rfl⟩ := List.cons_eq_cons.1 hafter
    rcases h before e mid a hlog howes with hwaits | ⟨e', he', hpays⟩
    · refine (hold a hwaits).imp_right fun ⟨e', he', hpays⟩ => ?_
      exact ⟨e', List.mem_append_right _ he', hpays⟩
    · exact .inr ⟨e', List.mem_append_left _ he', hpays⟩

end
