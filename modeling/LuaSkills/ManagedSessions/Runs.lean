import LuaSkills.ManagedSessions.Transactions

/-!
# Runs of the services

From new services on, every run of transactions, launches, kills, drops, retirements and retries keeps the
accounts. What they say about a state is `World.Managed`.
-/

namespace LuaSkills.ManagedSessions

open AList Option

variable {w w' : World} {t s owner : ℕ} {ok worker : Bool} {tok : ManagedSessionEventToken}

namespace World.Inv

theorem new (limit : ℕ) : (World.new limit).Inv .empty where
  capacity := Nat.zero_le limit
  disjoint := fun s hs => absurd hs (notMem_empty s)
  held := ⟨fun o => by cases o <;> exact List.nodup_nil, fun o _ _ ho => by cases o <;> cases ho⟩
  retiring s := ⟨fun h => absurd h (notMem_empty s), fun ⟨o, ho⟩ => by cases o <;> cases ho⟩
  launches := ⟨fun o => by cases o <;> exact List.nodup_nil, fun o _ _ ho => by cases o <;> cases ho⟩
  launching s := fun ⟨o, ho⟩ => by cases o <;> cases ho
  registered := nofun
  detached s r := fun ⟨o, ho⟩ => by cases o <;> cases ho
  fits := nofun
  fresh := nofun
  bare := nofun
  unborn := nofun
  mentioned := nofun
  handles := nofun
  ran := nofun
  legal := LegalLog.nil
  alive := nofun
  failed := nofun
  tokens := List.nodup_nil
  located := nofun
  joined := nofun
  begun := nofun
  opened := fun id hid => absurd hid (notMem_empty id)
  handled := fun s hs => absurd hs (notMem_empty s)
  known := nofun

/-- The check of an owner that still has sessions leaves it to the retry center. -/
theorem checkOwner (I : w.Inv .empty) (ht : w.tasks.lookup t = some (.checking owner worker)) :
    (if w.owns owner then w.setTask t (.enqueueing (.owner owner) worker) else w.endTask t).Inv .empty := by
  have I₁ := I.takeTask ht
  split
  · exact putTask (η := .empty) I₁ trivial nofun nofun nofun
  · exact I₁

theorem enqueue (I : w.Inv .empty) (ht : w.tasks.lookup t = some (.enqueueing target worker)) :
    ((w.enqueueTarget target).endTask t).Inv .empty := by
  rw [enqueueTarget_endTask]
  exact enqueueTarget (I.takeTask ht)

theorem advance (I : w.Inv .empty) (h : w.advance t ok = some w') : w'.Inv .empty := by
  unfold World.advance at h
  split at h
  next ht =>
    cases h
    exact I.register ht
  next ht =>
    cases h
    exact I.attach ht
  next ht =>
    cases h
    exact I.remove ht
  next ht =>
    cases h
    exact I.drop ht
  next ht =>
    cases h
    exact I.dropOrphan ht
  next ht =>
    cases h
    exact I.cleanOrphan ht
  next ht =>
    cases h
    exact I.cleanUserdata ht
  next ht =>
    cases h
    exact I.tear ht
  next ht =>
    cases h
    exact I.checkOwner ht
  next ht =>
    cases h
    exact I.enqueue ht
  · cases h

theorem step (I : w.Inv .empty) (h : w.step a = some w') : w'.Inv .empty := by
  cases a with
  | begin => exact I.begin h
  | commit => exact I.commit h
  | rollback => exact I.rollback h
  | reserve => exact I.reserve h
  | activate => exact I.activate h
  | abandon => exact I.abandon h
  | kill => exact I.kill h
  | close => exact I.close h
  | retire => exact I.retire h
  | pop => exact I.pop h
  | retry => exact I.retry h
  | advance => exact I.advance h

theorem run (I : w.Inv .empty) (h : w.run actions = some w') : w'.Inv .empty := by
  induction actions generalizing w with
  | nil =>
    cases h
    exact I
  | cons a actions ih =>
    obtain ⟨w₁, hstep, h⟩ := bind_eq_some_iff.1 h
    exact ih (I.step hstep) h

end World.Inv

theorem World.Opened.step (O : w.Opened) (I : w.Inv .empty) (h : w.step a = some w') : w'.Opened := by
  cases a with
  | begin => exact O.begin I.opened h
  | commit => exact O.commit h
  | rollback => exact O.rollback h
  | reserve => exact O.keep (Keeps.reserve h)
  | activate => exact O.keep (Keeps.activate h)
  | abandon => exact O.keep (Keeps.abandon h)
  | kill => exact O.keep (Keeps.kill h)
  | close => exact O.keep (Keeps.close h)
  | retire => exact O.keep (Keeps.retire h)
  | pop => exact O.keep (Keeps.pop h)
  | retry => exact O.keep (Keeps.retry h)
  | advance => exact O.keep (Keeps.advance h)

theorem World.Opened.run (O : w.Opened) (I : w.Inv .empty) (h : w.run actions = some w') : w'.Opened := by
  induction actions generalizing w with
  | nil =>
    cases h
    exact O
  | cons a actions ih =>
    obtain ⟨w₁, hstep, h⟩ := bind_eq_some_iff.1 h
    exact ih (O.step I hstep) (I.step hstep) h

/-! ## What the accounts say -/

def World.Present (w : World) (s : ℕ) : Prop := s ∈ w.sessions ∨ s ∈ w.retiringSessions

/-- The sessions and the retiring sessions are within the limit, and apart; a retiring session is in the
hands of one teardown. A session whose teardown failed is registered, and queued or about to be queued. An
activated session leaves when its process is known to be gone, and only after that its callback runs, once.
A registered token is that of a registered session or of a record in a teardown, or some section is about to
unregister it or to hand it out; and no new token is refused as long as its session and those of the registered
ones are present. A rollback tears down the sessions that were reserved in the transaction and are still
registered, unless they were released from it. -/
structure World.Managed (w : World) : Prop where
  capacity : w.sessions.size + w.retiringSessions.size ≤ w.limit
  disjoint : ∀ s ∈ w.sessions, s ∉ w.retiringSessions
  torn : ∀ s ∈ w.retiringSessions, ∃! t, ∃ job, w.tasks.lookup t = some (.tearing job) ∧
    s ∈ job.records.map Prod.fst
  tearing : ∀ t job, w.tasks.lookup t = some (.tearing job) →
    (job.records.map Prod.fst).Nodup ∧ ∀ s ∈ job.records.map Prod.fst, s ∈ w.retiringSessions
  failed : ∀ s ∈ w.failed, s ∈ w.sessions ∧
    (.session s ∈ w.targets ∨ ∃ t task, w.tasks.lookup t = some task ∧ s ∈ task.hand.owes)
  alive : ∀ s, .activated s ∈ w.log → .killed s ∉ w.log → w.Present s
  ran : ∀ s, .ran s ∈ w.log → ∃ before after, w.log = before ++ .ran s :: after ∧ .killed s ∈ before ∧
    .ran s ∉ before ∧ .ran s ∉ after
  located : ∀ token ∈ w.registeredSessions,
    (∃ r, w.sessions.lookup token.managedSessionId = some r ∧ r.eventToken = some token) ∨
      ∃ t task, w.tasks.lookup t = some task ∧
        (token ∈ task.hand.carries ∨ ∃ s r, (s, r) ∈ task.hand.records ∧ r.eventToken = some token)
  accepted : ∀ t s token, w.tasks.lookup t = some (.reserving s (some token)) → w.Present s →
    (∀ tok ∈ w.registeredSessions, w.Present tok.managedSessionId) → ∃ w', w.registerToken token = .ok w'
  rolledBack : ∀ t context, w.tasks.lookup t = some (.transaction context) → ∃ w' records,
    w.rollback t = some w' ∧ w'.tasks.lookup t = some (.tearing ⟨none, false, records, .token, false⟩) ∧
      ∀ s, (s ∈ records.map Prod.fst ↔ s ∈ w.sessions ∧ .reserved s (some context.transactionId) ∈ w.log ∧
        .released s ∉ w.log) ∧ (s ∈ w'.sessions ↔ s ∈ w.sessions ∧ s ∉ records.map Prod.fst)

theorem World.mem_detachSessions {d : List ℕ} :
    (s ∈ (w.detachSessions d).2.map Prod.fst ↔ s ∈ d ∧ s ∈ w.sessions) ∧
      (s ∈ (w.detachSessions d).1.sessions ↔ s ∈ w.sessions ∧ s ∉ d) := by
  induction d generalizing w with
  | nil => simp only [detachSessions, List.map_nil, List.not_mem_nil, false_and, not_false_eq_true, and_true,
      and_self]
  | cons s' d ih =>
    have hhead : ((w.detachSession s').2.toList.map Prod.fst = if s' ∈ w.sessions then [s'] else []) ∧
        (s ∈ (w.detachSession s').1.sessions ↔ s ≠ s' ∧ s ∈ w.sessions) := by
      unfold detachSession
      split
      next r hr =>
        rw [if_pos (mem_of_lookup hr), mem_erase]
        exact ⟨rfl, Iff.rfl⟩
      next hr =>
        have hnot := lookup_eq_none.1 hr
        rw [if_neg hnot]
        exact ⟨rfl, ⟨fun hs => ⟨fun heq => hnot (heq ▸ hs), hs⟩, And.right⟩⟩
    obtain ⟨hrecords, hsessions⟩ := ih (w := (w.detachSession s').1)
    simp only [detachSessions, List.map_append, List.mem_append, hrecords, hsessions, hhead, List.mem_cons]
    by_cases heq : s = s'
    · cases heq
      by_cases hs : s ∈ w.sessions
      · simp [hs]
      · simp [hs]
    · by_cases hs : s' ∈ w.sessions
      · simp [hs, heq]
      · simp [hs, heq]

theorem World.Inv.accepted (I : w.Inv .empty) (ht : w.tasks.lookup t = some (.reserving s (some tok)))
    (hs : w.Present s) (hall : ∀ tok ∈ w.registeredSessions, w.Present tok.managedSessionId) :
    ∃ w', w.registerToken tok = .ok w' := by
  have hunborn := I.unborn t _ ht s rfl
  obtain rfl : tok.managedSessionId = s := I.fits t _ ht tok rfl
  have hnodup : (tok.managedSessionId ::
      w.registeredSessions.map ManagedSessionEventToken.managedSessionId).Nodup := by
    refine List.nodup_cons.2 ⟨fun hmem => ?_, I.tokens⟩
    obtain ⟨tok', htok', heq⟩ := List.mem_map.1 hmem
    exact hunborn tok' htok' heq
  have hsub : (tok.managedSessionId :: w.registeredSessions.map ManagedSessionEventToken.managedSessionId) ⊆
      w.sessions.keys ++ w.retiringSessions.keys := by
    intro s hmem
    have hpresent : w.Present s := by
      rcases List.mem_cons.1 hmem with rfl | hmem
      · exact hs
      · obtain ⟨tok', htok', rfl⟩ := List.mem_map.1 hmem
        exact hall tok' htok'
    exact List.mem_append.2 (hpresent.imp mem_keys.2 mem_keys.2)
  have hlength := (List.subperm_of_subset hnodup hsub).length_le
  have hcapacity := I.capacity
  simp only [List.length_cons, List.length_map, List.length_append, keys, List.keys] at hlength
  simp only [size] at hcapacity
  unfold World.registerToken
  rw [if_neg fun hmem => hunborn tok hmem rfl, if_neg (by omega)]
  exact ⟨_, rfl⟩

/-- What is possessed between two sections is a task's. -/
theorem Possessed.task {α : Type} {kind : Hand → List α} {a : α} (h : Possessed kind .empty w.tasks a)
    (hempty : kind .empty = []) : ∃ t task, w.tasks.lookup t = some task ∧ a ∈ kind task.hand := by
  obtain ⟨k, hk⟩ := h
  cases k with
  | hand =>
    rw [possess, hempty] at hk
    cases hk
  | task t =>
    cases ht : w.tasks.lookup t with
    | none =>
      simp only [possess, ht, map_none, getD_none] at hk
      cases hk
    | some task =>
      rw [possess_lookup ht] at hk
      exact ⟨t, task, ht, hk⟩

theorem held_tearing {task : Task} (h : s ∈ task.hand.held) : ∃ job, task = .tearing job := by
  cases task with
  | tearing job => exact ⟨job, rfl⟩
  | _ => cases h

theorem World.Inv.managed (I : w.Inv .empty) (O : w.Opened) : w.Managed where
  capacity := I.capacity
  disjoint := I.disjoint
  torn s hs := by
    obtain ⟨t, task, ht, hmem⟩ := ((I.retiring s).1 hs).task rfl
    obtain ⟨job, rfl⟩ := held_tearing hmem
    refine ⟨t, ⟨job, ht, hmem⟩, fun t' ⟨job', ht', hmem'⟩ => ?_⟩
    refine Owner.task.inj (I.held.unique (.task t') (.task t) s ?_ ?_)
    · rw [possess_lookup ht']
      exact hmem'
    · rw [possess_lookup ht]
      exact hmem
  tearing t job ht := by
    have hnodup := I.held.nodup (.task t)
    rw [possess_lookup ht] at hnodup
    exact ⟨hnodup, fun s hs => (I.retiring s).2 (.of_task ht hs)⟩
  failed s hs := (I.failed s hs).imp_right fun h => h.imp_right fun h => h.task rfl
  alive s hs hkilled := (I.alive s hs).resolve_left hkilled
  ran s hs := by
    obtain ⟨before, after, hlog, hlegal, hbefore, hafter⟩ := I.legal.once hs fun _ => And.left
    exact ⟨before, after, hlog, hlegal.2, hbefore, hafter⟩
  located token htoken := by
    rcases I.located token htoken with h | h | ⟨s, r, hr, hrt⟩
    · exact .inl h
    · obtain ⟨t, task, ht, hmem⟩ := h.task rfl
      exact .inr ⟨t, task, ht, .inl hmem⟩
    · obtain ⟨t, task, ht, hmem⟩ := hr.task rfl
      exact .inr ⟨t, task, ht, .inr ⟨s, r, hmem, hrt⟩⟩
  accepted t s token := I.accepted
  rolledBack t context ht := by
    obtain ⟨r, hr, hrollback⟩ := O.rollback_eq ht
    refine ⟨_, _, hrollback, lookup_insert _, fun s => ?_⟩
    obtain ⟨hrecords, hsessions⟩ := World.mem_detachSessions (s := s) (d := r.sessionIds) (w := { w with
      transactions := w.transactions.erase context.transactionId })
    have hjoined := I.joined _ r hr s
    refine ⟨hrecords.trans ?_, hsessions.trans ?_⟩
    · rw [hjoined]
      exact and_comm
    · rw [hrecords]
      exact and_congr_right fun hs => not_congr ⟨fun h => ⟨h, hs⟩, And.left⟩

/-- Every state that the services reach is managed. -/
theorem World.managedSessions {limit : ℕ} {actions : List Action} (h : (World.new limit).run actions = some w) :
    w.Managed :=
  ((Inv.new limit).run h).managed ((Opened.new limit).run (Inv.new limit) h)

namespace Example

def identity : EventIdentity := ⟨"lease", "sid", 1⟩

/-- A transaction reserves a session with a token. -/
def launch : List Action :=
  [.begin 0 7, .reserve 1 7 (some ⟨1, 7⟩) (some identity), .advance 1 true, .advance 1 true, .activate 1]

/-- The owner retires, the kill fails, and the session is registered again. -/
def failing : List Action :=
  launch ++ [.retire 2 7 [1], .advance 2 true, .advance 2 false, .advance 2 true, .advance 2 true]

/-- The session is unregistered by its userdata, and its token not yet. -/
def leaving : List Action :=
  launch ++ [.commit 0, .begin 0 7, .kill 1 true, .advance 1 true, .advance 1 true,
    .reserve 2 7 (some ⟨2, 7⟩) (some identity), .advance 2 true]

theorem failing_managed : ∃ w, (World.new 1).run failing = some w ∧ w.failed = [1] ∧ w.Managed := by
  obtain ⟨w, hrun, hw⟩ := map_eq_some_iff.mp
    (show ((World.new 1).run failing).map World.failed = some [1] by decide +kernel)
  exact ⟨w, hrun, hw, World.managedSessions hrun⟩

/-- A token is registered while its session is torn down; a rollback passes over a session of its transaction
that the owner's retirement published again; and a session within the limit is refused by the event center. -/
theorem torn_token_registered :
    (∃ w, (World.new 1).run (launch ++ [.rollback 0]) = some w ∧ identity.token 1 ∈ w.registeredSessions ∧
      1 ∈ w.retiringSessions) ∧
    (∃ w, (World.new 1).run (failing ++ [.rollback 0]) = some w ∧ .reserved 1 (some 1) ∈ w.log ∧
      1 ∈ w.sessions) ∧
    ∃ w, (World.new 1).run leaving = some w ∧ .refused 2 ∈ w.log ∧ identity.token 1 ∈ w.registeredSessions ∧
      1 ∉ w.sessions ∧ 1 ∉ w.retiringSessions := by
  refine ⟨?_, ?_, ?_⟩
  · obtain ⟨w, hrun, hw⟩ := map_eq_some_iff.mp (show ((World.new 1).run (launch ++ [.rollback 0])).map
      (fun w => decide (identity.token 1 ∈ w.registeredSessions ∧ 1 ∈ w.retiringSessions)) = some true
      by decide +kernel)
    exact ⟨w, hrun, of_decide_eq_true hw⟩
  · obtain ⟨w, hrun, hw⟩ := map_eq_some_iff.mp (show ((World.new 1).run (failing ++ [.rollback 0])).map
      (fun w => decide (.reserved 1 (some 1) ∈ w.log ∧ 1 ∈ w.sessions)) = some true by decide +kernel)
    exact ⟨w, hrun, of_decide_eq_true hw⟩
  · obtain ⟨w, hrun, hw⟩ := map_eq_some_iff.mp (show ((World.new 1).run leaving).map
      (fun w => decide (.refused 2 ∈ w.log ∧ identity.token 1 ∈ w.registeredSessions ∧ 1 ∉ w.sessions ∧
        1 ∉ w.retiringSessions)) = some true by decide +kernel)
    exact ⟨w, hrun, of_decide_eq_true hw⟩

end Example

end LuaSkills.ManagedSessions
