import LuaSkills.ManagedSessions.Sections

/-!
# Open transactions

An open transaction is that of one task. Every section but the task's own commit and rollback leaves it
open, with its owner.
-/

namespace LuaSkills.ManagedSessions

open AList

def Task.context : Task → Option TransactionContext
  | .transaction context => some context
  | _ => none

variable {w w' w₁ : World} {task : Task} {t s owner : ℕ} {ids order : List ℕ} {ok : Bool}
  {token : Option ManagedSessionEventToken} {phase : CleanupPhase} {context : TransactionContext}

namespace World

/-- No task opens a transaction, and no transaction ends or changes its owner. -/
structure Keeps (w w' : World) : Prop where
  tasks : ∀ t task, w'.tasks.lookup t = some task → ∀ context ∈ task.context, w.tasks.lookup t = some task
  owners : ∀ id r, w.transactions.lookup id = some r →
    ∃ r', w'.transactions.lookup id = some r' ∧ r'.ownerToken = r.ownerToken

namespace Keeps

theorem of_eq (htasks : w'.tasks = w.tasks) (htransactions : w'.transactions = w.transactions) : w.Keeps w' :=
  ⟨fun _ _ ht _ _ => htasks ▸ ht, fun _ r hr => ⟨r, htransactions ▸ hr, rfl⟩⟩

theorem trans (h : w.Keeps w₁) (h' : w₁.Keeps w') : w.Keeps w' where
  tasks t task ht context hcontext := h.tasks t task (h'.tasks t task ht context hcontext) context hcontext
  owners id r hr := by
    obtain ⟨r₁, hr₁, howner₁⟩ := h.owners id r hr
    obtain ⟨r', hr', howner⟩ := h'.owners id r₁ hr₁
    exact ⟨r', hr', howner.trans howner₁⟩

theorem setTask (h : w.Keeps w') (htask : task.context = none) : w.Keeps (w'.setTask t task) where
  tasks := forall_insert h.tasks fun _ hcontext => by
    rw [htask] at hcontext
    cases hcontext
  owners := h.owners

theorem endTask (h : w.Keeps w') : w.Keeps (w'.endTask t) :=
  ⟨forall_erase h.tasks, h.owners⟩

theorem unregisterToken : w.Keeps (w.unregisterToken token) := by
  cases token <;> exact of_eq rfl rfl

theorem enqueueTarget : w.Keeps (w.enqueueTarget target) := by
  unfold World.enqueueTarget
  split <;> exact of_eq rfl rfl

theorem settle {r : SessionRecord} {retry : Bool} : w.Keeps (w.settle s r retry) := by
  cases retry <;> exact of_eq rfl rfl

theorem detachSession : w.Keeps (w.detachSession s).1 := by
  unfold World.detachSession
  split <;> exact of_eq rfl rfl

theorem detachSessions : w.Keeps (w.detachSessions ids).1 := by
  induction ids generalizing w with
  | nil => exact of_eq rfl rfl
  | cons s ids ih => exact detachSession.trans ih

theorem record : w.Keeps (w.record e) := of_eq rfl rfl

/-- Transactions that lose members keep their owners. -/
theorem forget : w.Keeps (w.forget ids) where
  tasks _ _ ht _ _ := ht
  owners id r hr := by
    simp only [World.forget, lookup_mapValues, hr]
    exact ⟨_, rfl, rfl⟩

theorem unregisterSession : w.Keeps (w.unregisterSession s).1 :=
  forget.trans (of_eq rfl rfl)

theorem join : w.Keeps (w.join s transaction) := by
  cases transaction with
  | none => exact of_eq rfl rfl
  | some context =>
    refine ⟨fun t task ht _ _ => ht, fun id r hr => ?_⟩
    simp only [World.join, lookup_adjust_eq]
    split
    next =>
      rw [hr]
      exact ⟨_, rfl, rfl⟩
    next => exact ⟨r, hr, rfl⟩

theorem clean : w.Keeps (w.clean s phase).1 := by
  cases phase with
  | take =>
    simp only [World.clean]
    split <;> exact of_eq rfl rfl
  | callback => exact unregisterSession
  | token => exact unregisterToken
  | finish => exact of_eq rfl rfl

theorem reserve (h : w.reserve t owner transaction identity = some w') : w.Keeps w' := by
  unfold World.reserve at h
  split at h
  · cases h
  · split at h
    · cases h
      exact of_eq rfl rfl
    · cases h
      refine setTask (trans (trans ?_ join) record) rfl
      exact of_eq rfl rfl

theorem register : w.Keeps (w.register t s token) := by
  cases token with
  | none => exact setTask (of_eq rfl rfl) rfl
  | some token =>
    simp only [World.register]
    split
    next h =>
      unfold World.registerToken at h
      split at h
      · cases h
      · split at h <;> cases h
        exact setTask (of_eq rfl rfl) rfl
    next => exact setTask (of_eq rfl rfl) rfl

theorem attach : w.Keeps (w.attach t s token) := by
  unfold World.attach
  split
  · exact setTask (of_eq rfl rfl) rfl
  · exact unregisterToken.endTask

theorem activate (h : w.activate t = some w') : w.Keeps w' := by
  unfold World.activate at h
  split at h
  · extract_lets at h
    split at h
    · split at h <;> cases h <;> exact setTask (of_eq rfl rfl) rfl
    · cases h
      exact setTask (of_eq rfl rfl) rfl
  · cases h

theorem abandon (h : w.abandon t = some w') : w.Keeps w' := by
  unfold World.abandon at h
  split at h
  · cases h
    exact setTask (of_eq rfl rfl) rfl
  · cases h

theorem kill (h : w.kill t ok = some w') : w.Keeps w' := by
  unfold World.kill at h
  split at h
  · split at h <;> cases h
    · exact setTask (of_eq rfl rfl) rfl
    · exact of_eq rfl rfl
  · cases h

theorem close (h : w.close t ok = some w') : w.Keeps w' := by
  unfold World.close at h
  split at h
  · split at h
    · cases h
      exact setTask (of_eq rfl rfl) rfl
    · split at h <;> cases h
      · exact setTask (of_eq rfl rfl) rfl
      · exact endTask (of_eq rfl rfl)
  · cases h

theorem detachOwner (h : w.detachOwner owner order = some (w', records)) : w.Keeps w' := by
  unfold World.detachOwner at h
  split at h
  · obtain ⟨rfl, rfl⟩ := Prod.ext_iff.1 (Option.some.inj h)
    exact forget.trans detachSessions
  · cases h

theorem retire (h : w.retire t owner order = some w') : w.Keeps w' := by
  unfold World.retire at h
  split at h
  · cases h
  · obtain ⟨⟨w₁, records⟩, hdetach, rfl⟩ := Option.map_eq_some_iff.1 h
    exact (detachOwner hdetach).setTask rfl

theorem pop (h : w.pop t = some w') : w.Keeps w' := by
  unfold World.pop at h
  split at h
  · cases h
  · split at h <;> cases h
    exact setTask (of_eq rfl rfl) rfl

theorem retry (h : w.retry t order = some w') : w.Keeps w' := by
  unfold World.retry at h
  split at h
  · obtain ⟨⟨w₁, records⟩, hdetach, rfl⟩ := Option.map_eq_some_iff.1 h
    exact (detachOwner hdetach).setTask rfl
  next s ht =>
    split at h
    · cases h
      exact setTask (of_eq rfl rfl) rfl
    · have hkeeps := detachSession (w := w) (s := s)
      split at h
      next hdetach =>
        cases h
        rw [hdetach] at hkeeps
        exact hkeeps.setTask rfl
      next hdetach =>
        cases h
        rw [hdetach] at hkeeps
        exact hkeeps.endTask
  · cases h

theorem tear : w.Keeps (w.tear t job ok) := by
  have hw : w.Keeps w := of_eq rfl rfl
  unfold World.tear
  split
  · exact enqueueTarget.setTask rfl
  · split
    · split
      · exact hw.setTask rfl
      · exact hw.setTask rfl
      · exact hw.endTask
    · split
      · exact unregisterToken.setTask rfl
      · split
        · exact hw.setTask rfl
        · refine setTask ?_ rfl
          split <;> exact of_eq rfl rfl
      · exact clean.setTask rfl
      · exact hw.setTask rfl
      · exact hw.setTask rfl
      · exact settle.setTask rfl
      · exact hw

theorem ite {c : Prop} [Decidable c] (h : w.Keeps w') (h' : w.Keeps w₁) : w.Keeps (if c then w' else w₁) := by
  split
  · exact h
  · exact h'

theorem advance (h : w.advance t ok = some w') : w.Keeps w' := by
  have hw : w.Keeps w := of_eq rfl rfl
  unfold World.advance at h
  split at h
  · cases h
    exact register
  · cases h
    exact attach
  · cases h
    exact unregisterSession.setTask rfl
  · cases h
    exact ite (setTask unregisterToken rfl) (endTask unregisterToken)
  · cases h
    exact ite (endTask record) (setTask record rfl)
  · cases h
    exact ite (setTask clean rfl) (endTask clean)
  · cases h
    exact ite (endTask clean) (setTask clean rfl)
  · cases h
    exact tear
  · cases h
    exact ite (hw.setTask rfl) hw.endTask
  · cases h
    exact enqueueTarget.endTask
  · cases h

end Keeps

structure Opened (w : World) : Prop where
  recorded : ∀ t task, w.tasks.lookup t = some task → ∀ context ∈ task.context,
    ∃ r, w.transactions.lookup context.transactionId = some r ∧ r.ownerToken = context.ownerToken
  unique : ∀ t task, w.tasks.lookup t = some task → ∀ context ∈ task.context, ∀ t' task',
    w.tasks.lookup t' = some task' → ∀ context' ∈ task'.context,
      context.transactionId = context'.transactionId → t = t'

namespace Opened

theorem new (limit : ℕ) : (World.new limit).Opened := ⟨nofun, nofun⟩

theorem keep (O : w.Opened) (h : w.Keeps w') : w'.Opened where
  recorded t task ht context hcontext := by
    obtain ⟨r, hr, howner⟩ := O.recorded t task (h.tasks t task ht context hcontext) context hcontext
    obtain ⟨r', hr', howner'⟩ := h.owners _ r hr
    exact ⟨r', hr', howner'.trans howner⟩
  unique t task ht context hcontext t' task' ht' context' hcontext' :=
    O.unique t task (h.tasks t task ht context hcontext) context hcontext t' task'
      (h.tasks t' task' ht' context' hcontext') context' hcontext'

theorem begin (O : w.Opened) (hopened : ∀ id ∈ w.transactions, id ≤ w.nextTransactionId)
    (h : w.begin t owner = some w') : w'.Opened := by
  unfold World.begin at h
  split at h
  · cases h
  next ht =>
    split at h
    next id hid =>
      rw [checkedAdd_eq_some] at hid
      cases h
      obtain ⟨-, rfl⟩ := hid
      have hnew : ∀ {t task}, w.tasks.lookup t = some task → ∀ {context}, context ∈ task.context →
          context.transactionId ≠ w.nextTransactionId + 1 := by
        intro t task ht context hcontext heq
        obtain ⟨r, hr, -⟩ := O.recorded t task ht context hcontext
        exact absurd (hopened _ (mem_of_lookup hr)) (heq ▸ Nat.not_succ_le_self _)
      refine ⟨forall_insert (fun t task ht context hcontext => ?_) ?_,
        forall_insert (fun t task ht context hcontext => forall_insert
          (O.unique t task ht context hcontext) ?_) ?_⟩
      · obtain ⟨r, hr, howner⟩ := O.recorded t task ht context hcontext
        exact ⟨r, (lookup_insert_ne (hnew ht hcontext)).trans hr, howner⟩
      · rintro context ⟨⟩
        exact ⟨_, lookup_insert _, rfl⟩
      · rintro context' ⟨⟩ heq
        exact absurd heq (hnew ht hcontext)
      · rintro context ⟨⟩
        refine forall_insert (fun t' task' ht' context' hcontext' heq => ?_) fun _ _ _ => rfl
        exact absurd heq.symm (hnew ht' hcontext')
    next =>
      cases h
      exact O

theorem finish (O : w.Opened) (ht : w.tasks.lookup t = some (.transaction context)) :
    ({ w with transactions := w.transactions.erase context.transactionId }.endTask t).Opened where
  recorded t' task' ht' context' hcontext' := by
    obtain ⟨hne, ht'⟩ := lookup_of_erase ht'
    obtain ⟨r, hr, howner⟩ := O.recorded t' task' ht' context' hcontext'
    refine ⟨r, (lookup_erase_ne fun heq => ?_).trans hr, howner⟩
    exact hne (O.unique t' task' ht' context' hcontext' t _ ht context rfl heq)
  unique := forall_erase fun t' task' ht' context' hcontext' =>
    forall_erase (O.unique t' task' ht' context' hcontext')

theorem commit (O : w.Opened) (h : w.commit t = some w') : w'.Opened := by
  unfold World.commit at h
  split at h
  next context ht =>
    cases h
    exact O.finish ht
  · cases h

theorem rollback_eq (O : w.Opened) (ht : w.tasks.lookup t = some (.transaction context)) :
    ∃ r, w.transactions.lookup context.transactionId = some r ∧ w.rollback t =
      some (({ w with transactions := w.transactions.erase context.transactionId }.detachSessions
        r.sessionIds).1.setTask t (.tearing ⟨none, false, ({ w with
          transactions := w.transactions.erase context.transactionId }.detachSessions r.sessionIds).2,
            .token, false⟩)) := by
  obtain ⟨r, hr, howner⟩ := O.recorded t _ ht context rfl
  refine ⟨r, hr, ?_⟩
  simp only [World.rollback, ht, hr, if_neg (not_not.2 howner)]

theorem rollback (O : w.Opened) (h : w.rollback t = some w') : w'.Opened := by
  have ht : ∃ context, w.tasks.lookup t = some (.transaction context) := by
    unfold World.rollback at h
    split at h
    next context ht => exact ⟨context, ht⟩
    next => cases h
  obtain ⟨context, ht⟩ := ht
  obtain ⟨r, -, heq⟩ := O.rollback_eq ht
  rw [heq] at h
  cases h
  have hkeeps : World.Keeps _ (World.detachSessions _ r.sessionIds).1 := Keeps.detachSessions (w := { w with
    transactions := w.transactions.erase context.transactionId }.endTask t)
  rw [detachSessions_endTask] at hkeeps
  rw [← setTask_endTask]
  exact (O.finish ht).keep (hkeeps.setTask rfl)

end Opened
end World

end LuaSkills.ManagedSessions
