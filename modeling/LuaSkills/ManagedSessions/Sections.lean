import LuaSkills.ManagedSessions.Moves

/-!
# Sections

One lemma for each section that a thread runs under a lock. What the thread has is taken into the hand, the
section moves it, and the thread's next stage puts it down.
-/

namespace LuaSkills.ManagedSessions

open AList List Option

variable {w w' : World} {η : Hand} {task : Task} {t s owner : ℕ} {r : SessionRecord}
  {rs : List (ℕ × SessionRecord)} {l o order : List ℕ} {cs : List ManagedSessionEventToken}
  {token : Option ManagedSessionEventToken} {phase : CleanupPhase} {ok : Bool} {job : Teardown}

namespace World

/-! ## Sections that leave the tasks alone -/

theorem setTask_endTask : (w.endTask t).setTask t task = w.setTask t task := by
  rw [setTask, endTask, insert_erase]
  rfl

theorem unregisterToken_endTask : (w.unregisterToken token).endTask t = (w.endTask t).unregisterToken token := by
  cases token <;> rfl

theorem enqueueTarget_endTask :
    (w.enqueueTarget target).endTask t = (w.endTask t).enqueueTarget target := by
  unfold enqueueTarget
  by_cases h : target ∈ w.targets
  · rw [if_pos h, if_pos (show target ∈ (w.endTask t).targets from h)]
  · rw [if_neg h, if_neg (show target ∉ (w.endTask t).targets from h)]
    rfl

theorem detachSession_endTask : (w.endTask t).detachSession s =
    ((w.detachSession s).1.endTask t, (w.detachSession s).2) := by
  have hlookup : (w.endTask t).sessions.lookup s = w.sessions.lookup s := rfl
  unfold detachSession
  rw [hlookup]
  cases w.sessions.lookup s <;> rfl

theorem detachSessions_endTask : (w.endTask t).detachSessions order =
    ((w.detachSessions order).1.endTask t, (w.detachSessions order).2) := by
  induction order generalizing w with
  | nil => rfl
  | cons s order ih => simp only [detachSessions, detachSession_endTask, ih]

theorem clean_endTask : (w.endTask t).clean s phase =
    ((w.clean s phase).1.endTask t, (w.clean s phase).2) := by
  cases phase with
  | take =>
    have hlookup : (w.endTask t).handles.lookup s = w.handles.lookup s := rfl
    simp only [clean, hlookup]
    split <;> rfl
  | callback => rfl
  | token => simp only [clean, unregisterToken_endTask]
  | finish => rfl

theorem settle_endTask {retry : Bool} : (w.settle s r retry).endTask t = (w.endTask t).settle s r retry := by
  cases retry <;> rfl

theorem unregisterToken_log : (w.unregisterToken token).log = w.log := by
  cases token <;> rfl

theorem clean_log : ∃ more, (w.clean s phase).1.log = w.log ++ more := by
  cases phase with
  | take =>
    simp only [clean]
    split
    · exact ⟨_, rfl⟩
    · exact ⟨[], (append_nil _).symm⟩
  | callback => exact ⟨_, rfl⟩
  | token => exact ⟨[], by rw [append_nil]; exact unregisterToken_log⟩
  | finish => exact ⟨[], (append_nil _).symm⟩

/-! ## Transactions -/

namespace Inv

theorem begin (I : w.Inv .empty) (h : w.begin t owner = some w') : w'.Inv .empty := by
  unfold World.begin at h
  split at h
  · cases h
  next ht =>
    split at h
    next id hid =>
      rw [checkedAdd_eq_some] at hid
      cases h
      obtain ⟨-, rfl⟩ := hid
      exact beginTask (η := .empty) I.beginTransaction ht trivial nofun nofun nofun
    next =>
      cases h
      exact I

theorem commit (I : w.Inv .empty) (h : w.commit t = some w') : w'.Inv .empty := by
  unfold World.commit at h
  split at h
  next context ht =>
    cases h
    exact I.endTransaction.finishTask ht rfl
  · cases h

theorem beginTeardown (I : (w.endTask t).Inv ⟨rs, [], [], []⟩) :
    (w.setTask t (.tearing ⟨target, worker, rs, .token, false⟩)).Inv .empty :=
  putTask (η := .empty) I ⟨fun _ _ _ _ => trivial, fun _ => rfl⟩ nofun nofun nofun

theorem rollback (I : w.Inv .empty) (h : w.rollback t = some w') : w'.Inv .empty := by
  unfold World.rollback at h
  split at h
  next context ht =>
    split at h
    · cases h
      exact I.finishTask ht rfl
    next r _ =>
      split at h
      · cases h
        exact I.finishTask ht rfl
      · cases h
        have I₁ : ({ w with transactions := w.transactions.erase context.transactionId }.endTask t).Inv .empty :=
          I.endTransaction.finishTask ht rfl
        have I₂ := detachSessions (d := r.sessionIds) I₁
        rw [detachSessions_endTask] at I₂
        exact beginTeardown I₂
  · cases h

/-! ## Reservation -/

theorem reserve (I : w.Inv .empty) (h : w.reserve t owner transaction identity = some w') :
    w'.Inv .empty := by
  unfold World.reserve at h
  split at h
  · cases h
  next ht =>
    split at h
    · cases h
      exact I
    next s hadmission =>
      cases h
      simp only [admission, Except.bind_eq_ok, refuseIf_eq_ok, okOr_eq_ok, checkedAdd_eq_some] at hadmission
      obtain ⟨_, hcapacity, _, htransaction, -, rfl⟩ := hadmission
      have hmem : ∀ context ∈ transaction, context.transactionId ∈ w.transactions := by
        intro context hcontext
        rw [hcontext] at htransaction
        simp only [checkTransaction, Except.bind_eq_ok, refuseIf_eq_ok, okOr_eq_ok] at htransaction
        obtain ⟨r, hr, _⟩ := htransaction
        exact mem_of_lookup hr
      have hlt : w.nextSessionId < w.nextSessionId + 1 := Nat.lt_succ_self _
      have I₁ := I.admitSession owner (Nat.lt_of_not_le hcapacity) hmem
      refine beginTask (η := .empty) I₁ (by cases transaction <;> exact ht) ?_ ?_ ?_ ?_
      · intro tok htok
        obtain ⟨idn, -, rfl⟩ := map_eq_some_iff.1 htok
        rfl
      · rintro s ⟨⟩
        have hnone : w.handles.lookup (w.nextSessionId + 1) = none := lookup_eq_none.2 fun hs =>
          absurd (I.lt_of_reserved (I.handled _ hs)) (Nat.not_le.2 hlt)
        cases transaction <;> exact hnone
      · rintro s ⟨⟩ r hr
        have hr' : (w.sessions.insert (w.nextSessionId + 1) ⟨owner, false, false, none⟩).lookup
            (w.nextSessionId + 1) = some r := by cases transaction <;> exact hr
        rw [lookup_insert] at hr'
        cases hr'
        rfl
      · rintro s ⟨⟩ tok htok heq
        have htok' : tok ∈ w.registeredSessions := by cases transaction <;> exact htok
        exact absurd (I.lt_of_reserved (I.known tok htok')) (Nat.not_le.2 (heq ▸ hlt))

/-- The token of a launch is registered, or its session is about to be removed again. -/
theorem register (I : w.Inv .empty) (ht : w.tasks.lookup t = some (.reserving s token)) :
    (w.register t s token).Inv .empty := by
  have I₁ := I.takeTask ht
  have hfits := I.fits t _ ht
  have hbare := I.bare t _ ht s rfl
  have hfresh := I.fresh t _ ht s rfl
  have hunborn := I.unborn t _ ht s rfl
  have hs := I.launching s (.of_task ht (mem_singleton_self _))
  cases token with
  | none =>
    refine putTask (η := .empty) I₁ nofun ?_ ?_ nofun
    · rintro s ⟨⟩
      exact hfresh
    · rintro s ⟨⟩
      exact hbare
  | some tok =>
    simp only [World.register, World.registerToken]
    obtain rfl : tok.managedSessionId = s := hfits tok rfl
    have hnot : tok ∉ w.registeredSessions := fun h => hunborn tok h rfl
    rw [if_neg hnot]
    split
    next w' hw' =>
      split at hw'
      · cases hw'
      · cases hw'
        refine putTask (η := .empty) (registerToken I₁ hunborn) ?_ ?_ ?_ nofun
        · rintro held ⟨⟩
          rfl
        · rintro s ⟨⟩
          exact hfresh
        · rintro s ⟨⟩
          exact hbare
    next =>
      exact putTask (η := .empty) (I₁.record (e := .refused tok.managedSessionId) rfl nofun
        (I.lt_of_reserved hs.1)) trivial nofun nofun nofun

theorem attach (I : w.Inv .empty) (ht : w.tasks.lookup t = some (.registered s token)) :
    (w.attach t s token).Inv .empty := by
  have I₁ := I.takeTask ht
  unfold World.attach
  split
  next r hr =>
    refine putTask (η := .empty) (attachToken I₁ hr (I.bare t _ ht s rfl r hr) (I.fits t _ ht)) trivial ?_
      nofun nofun
    rintro s ⟨⟩
    exact I.fresh t _ ht s rfl
  next =>
    rw [unregisterToken_endTask]
    exact (unregisterToken I₁).letGo (nil_sublist _) nofun nofun

theorem activate (I : w.Inv .empty) (h : w.activate t = some w') : w'.Inv .empty := by
  unfold World.activate at h
  split at h
  next s ht =>
    have I₁ := (I.takeTask ht).newHandle (I.fresh t _ ht s rfl)
    have hremoving : ({ w with handles := w.handles.insert s ⟨true, false⟩ }.setTask t
        (.removing s true)).Inv .empty := putTask (η := .empty) I₁ trivial nofun nofun nofun
    extract_lets at h
    split at h
    next r hr =>
      split at h
      · cases h
        exact hremoving
      · cases h
        exact putTask (η := .empty) (activateRecord I₁ hr)
          ⟨(I.registered s r hr).reserved.append, nofun⟩ nofun nofun nofun
    · cases h
      exact hremoving
  · cases h

theorem abandon (I : w.Inv .empty) (h : w.abandon t = some w') : w'.Inv .empty := by
  unfold World.abandon at h
  split at h
  next s ht =>
    cases h
    have I₁ := I.takeTask ht
    exact putTask (η := .empty) I₁ trivial nofun nofun nofun
  · cases h

/-! ## Cleanup handles -/

theorem killed_of_fits (I : w.Inv η) (h : phase.Fits w.log s) : .killed s ∈ w.log := by
  cases phase with
  | take => exact h
  | callback | token | finish => exact I.killed_of_ran h

/-- A section of a cleanup that runs after the process is gone. -/
theorem clean (I : w.Inv ⟨rs, l, phase.carries, o⟩) (hfits : phase.Fits w.log s) :
    (w.clean s phase).1.Inv ⟨rs, l, (w.clean s phase).2.elim [] CleanupPhase.carries, o⟩ ∧
      ∀ p ∈ (w.clean s phase).2, p.Fits (w.clean s phase).1.log s := by
  have hkilled := I.killed_of_fits hfits
  cases phase with
  | take =>
    simp only [World.clean]
    split
    next finished hs =>
      refine ⟨I.takeHandle hs hkilled, ?_⟩
      rintro p ⟨⟩
      exact mem_append_right _ (mem_singleton_self _)
    next => exact ⟨I, nofun⟩
  | callback =>
    refine ⟨I.unregisterSession (I.mentioned _ hkilled) fun _ => hkilled, ?_⟩
    rintro p ⟨⟩
    exact mem_append_left _ hfits
  | token token =>
    refine ⟨I.unregisterToken, ?_⟩
    rintro p ⟨⟩
    exact unregisterToken_log.symm ▸ hfits
  | finish => exact ⟨I.finishHandle hfits, nofun⟩

theorem cleanTask (I : (w.endTask t).Inv ⟨rs, l, phase.carries, o⟩) (hfits : phase.Fits w.log s) :
    ((w.clean s phase).1.endTask t).Inv ⟨rs, l, (w.clean s phase).2.elim [] CleanupPhase.carries, o⟩ ∧
      ∀ p ∈ (w.clean s phase).2, p.Fits (w.clean s phase).1.log s := by
  obtain ⟨I₁, hnext⟩ := I.clean hfits
  rw [clean_endTask] at I₁ hnext
  exact ⟨I₁, hnext⟩

/-! ## The end of a session without teardown -/

/-- A launch gives its session up. -/
theorem remove (I : w.Inv .empty) (ht : w.tasks.lookup t = some (.removing s orphan)) :
    ((w.unregisterSession s).1.setTask t (.dropping s (w.unregisterSession s).2 orphan)).Inv .empty := by
  have I₁ := I.takeTask ht
  obtain ⟨hreserved, hactivated⟩ := I.launching s (.of_task ht (mem_singleton_self _))
  have I₂ := I₁.unregisterSession (I.lt_of_reserved hreserved) fun h => absurd h hactivated
  exact putTask (η := .empty) (I₂.letGo (nil_sublist _) (fun _ h _ => h) nofun)
    (Reserved.append hreserved) nofun nofun nofun

theorem drop (I : w.Inv .empty) (ht : w.tasks.lookup t = some (.dropping s token orphan)) :
    (if orphan then (w.unregisterToken token).setTask t (.orphan s none)
      else (w.unregisterToken token).endTask t).Inv .empty := by
  have I₁ := unregisterToken (I.takeTask ht)
  rw [← unregisterToken_endTask] at I₁
  split
  · refine putTask (η := .empty) I₁ ⟨?_, nofun⟩ nofun nofun nofun
    rw [unregisterToken_log]
    exact I.fits t _ ht
  · exact I₁

/-- The process and the handle of a launch that failed are dropped. -/
theorem dropOrphan (I : w.Inv .empty) (ht : w.tasks.lookup t = some (.orphan s none)) :
    (if ok then (w.record (.killed s)).endTask t
      else (w.record (.killed s)).setTask t (.orphan s (some .take))).Inv .empty := by
  have hreserved := (I.fits t _ ht).1
  have I₁ := (I.takeTask ht).record (e := .killed s) rfl nofun (I.lt_of_reserved hreserved)
  split
  · exact I₁
  · refine putTask (η := .empty) I₁ ⟨hreserved.append, ?_⟩ nofun nofun nofun
    rintro p ⟨⟩
    exact mem_append_right _ (mem_singleton_self _)

theorem cleanOrphan (I : w.Inv .empty) (ht : w.tasks.lookup t = some (.orphan s (some phase))) :
    (if (w.clean s phase).2.isSome then (w.clean s phase).1.setTask t (.orphan s (w.clean s phase).2)
      else (w.clean s phase).1.endTask t).Inv .empty := by
  obtain ⟨hreserved, hphase⟩ := I.fits t _ ht
  obtain ⟨I₁, hnext⟩ := cleanTask (I.takeTask ht) (hphase phase rfl)
  obtain ⟨more, hlog⟩ : ∃ more, (w.clean s phase).1.log = w.log ++ more := clean_log
  cases hp : (w.clean s phase).2 with
  | none =>
    rw [hp] at I₁
    exact I₁
  | some p =>
    rw [hp] at I₁ hnext
    exact putTask (η := .empty) I₁ ⟨hlog ▸ hreserved.append, hnext⟩ nofun nofun nofun

/-! ## Userdata -/

theorem cleanUserdata (I : w.Inv .empty) (ht : w.tasks.lookup t = some (.userdata s (some phase) dropped)) :
    (if (w.clean s phase).2.isNone && dropped then (w.clean s phase).1.endTask t
      else (w.clean s phase).1.setTask t (.userdata s (w.clean s phase).2 dropped)).Inv .empty := by
  obtain ⟨hreserved, hphase⟩ := I.fits t _ ht
  obtain ⟨I₁, hnext⟩ := cleanTask (I.takeTask ht) (hphase phase rfl)
  obtain ⟨more, hlog⟩ : ∃ more, (w.clean s phase).1.log = w.log ++ more := clean_log
  split
  next hdone =>
    rw [Bool.and_eq_true, isNone_iff_eq_none] at hdone
    rw [hdone.1] at I₁
    exact I₁
  next => exact putTask (η := .empty) I₁ ⟨hlog ▸ hreserved.append, hnext⟩ nofun nofun nofun

/-- The process is gone, and its cleanup begins. -/
theorem beginCleanup (I : w.Inv .empty) (ht : w.tasks.lookup t = some (.userdata s none false)) :
    ((w.record (.killed s)).setTask t (.userdata s (some .take) dropped)).Inv .empty := by
  have hreserved := (I.fits t _ ht).1
  have I₁ := (I.takeTask ht).record (e := .killed s) rfl nofun (I.lt_of_reserved hreserved)
  refine putTask (η := .empty) I₁ ⟨hreserved.append, ?_⟩ nofun nofun nofun
  rintro p ⟨⟩
  exact mem_append_right _ (mem_singleton_self _)

theorem kill (I : w.Inv .empty) (h : w.kill t ok = some w') : w'.Inv .empty := by
  unfold World.kill at h
  split at h
  next s ht =>
    split at h
    · cases h
      exact I.beginCleanup ht
    · cases h
      exact I
  · cases h

/-- A section owes what nothing relies on. -/
theorem owe (I : w.Inv ⟨rs, l, cs, []⟩) : w.Inv ⟨rs, l, cs, o⟩ :=
  { I with
    failed := fun s hs => (I.failed s hs).imp_right fun h => h.imp_right fun h => h.mono nofun
    located := fun tok htok => (I.located tok htok).imp (fun r hr hrt => .inl ⟨r, hr, hrt⟩)
      (fun h => .inr (.inl (h.mono id))) fun s r hr hrt => .inr (.inr ⟨s, r, hr.mono id, hrt⟩) }

theorem close (I : w.Inv .empty) (h : w.close t ok = some w') : w'.Inv .empty := by
  unfold World.close at h
  split at h
  next s ht =>
    split at h
    · cases h
      exact I.beginCleanup ht
    · have I₁ := I.takeTask ht
      split at h
      · cases h
        exact putTask (η := .empty) (owe I₁) trivial nofun nofun nofun
      · cases h
        exact I₁
  · cases h

/-! ## Teardown -/

theorem mem_ownedBy (h : s ∈ w.ownedBy owner) : s ∈ w.sessions :=
  mem_keys.1 (mem_filter.1 h).1

theorem detachOwner (I : w.Inv ⟨[], l, cs, o⟩) (h : w.detachOwner owner order = some (w', records)) :
    w'.Inv ⟨records, l, cs, o⟩ := by
  unfold World.detachOwner at h
  split at h
  next hperm =>
    obtain ⟨rfl, rfl⟩ := Prod.ext_iff.1 (some.inj h)
    refine (show World.Inv _ ⟨[] ++ _, l, cs, o⟩ from detachSessions (I.forget fun s hs => ?_))
    obtain ⟨r, hr⟩ := mem_iff_lookup.1 (mem_ownedBy (hperm.subset hs))
    exact I.lt_of_reserved (I.registered s r hr).reserved
  · cases h

theorem detachOwner_endTask (h : w.detachOwner owner order = some (w', records)) :
    (w.endTask t).detachOwner owner order = some (w'.endTask t, records) := by
  unfold World.detachOwner at h ⊢
  split at h
  next hperm =>
    obtain ⟨rfl, rfl⟩ := Prod.ext_iff.1 (some.inj h)
    rw [if_pos (show order.Perm ((w.endTask t).ownedBy owner) from hperm)]
    exact congrArg some (detachSessions_endTask (w := w.forget order))
  · cases h

theorem retire (I : w.Inv .empty) (h : w.retire t owner order = some w') : w'.Inv .empty := by
  unfold World.retire at h
  split at h
  · cases h
  next ht =>
    obtain ⟨⟨w₁, records⟩, hdetach, rfl⟩ := map_eq_some_iff.1 h
    have hend : w.endTask t = w := by rw [endTask, erase_of_notMem ht]
    have I₁ : (w.endTask t).Inv .empty := by rwa [hend]
    exact beginTeardown (detachOwner I₁ (detachOwner_endTask hdetach))

theorem pop (I : w.Inv .empty) (h : w.pop t = some w') : w'.Inv .empty := by
  unfold World.pop at h
  split at h
  · cases h
  next hnone =>
    split at h
    next target rest htargets =>
      cases h
      exact beginTask (η := .empty) (popTarget I htargets) (fun ht => hnone (.inl ht)) trivial nofun nofun nofun
    · cases h

theorem notMem_detachSession : s ∉ (w.detachSession s).1.sessions := by
  unfold World.detachSession
  split
  next => exact fun h => (mem_erase.1 h).1 rfl
  next hs => exact lookup_eq_none.1 hs

theorem retry (I : w.Inv .empty) (h : w.retry t order = some w') : w'.Inv .empty := by
  unfold World.retry at h
  split at h
  next owner ht =>
    obtain ⟨⟨w₁, records⟩, hdetach, rfl⟩ := map_eq_some_iff.1 h
    exact beginTeardown (detachOwner (I.takeTask ht) (detachOwner_endTask hdetach))
  next s ht =>
    have I₁ := I.takeTask ht
    split at h
    · cases h
      exact putTask (η := .empty) I₁ trivial nofun nofun nofun
    · have I₂ := detachSession (s := s) I₁
      rw [detachSession_endTask] at I₂
      have hfailed : s ∉ (w.detachSession s).1.failed := fun h =>
        notMem_detachSession (I₂.failed s h).1
      have I₃ : ((w.detachSession s).1.endTask t).Inv ⟨(w.detachSession s).2.toList, [], [], []⟩ := by
        refine I₂.letGo (Sublist.refl _) (fun _ h _ => h) fun s' hs' hfail => ?_
        cases mem_singleton.1 hs'
        exact absurd hfail hfailed
      split at h
      next w₁ record hdetach =>
        cases h
        rw [hdetach] at I₃
        exact beginTeardown I₃
      next w₁ hdetach =>
        cases h
        rw [hdetach] at I₃
        exact I₃
  · cases h

/-- A teardown has run through its records. -/
theorem endTear (I : w.Inv .empty) (ht : w.tasks.lookup t = some (.tearing job)) (hrecords : job.records = [])
    (hphase : ∀ s, job.phase ≠ .enqueue s) : (w.tear t job ok).Inv .empty := by
  have howes : job.phase.owes = [] := by
    cases hp : job.phase with
    | enqueue s => exact absurd hp (hphase s)
    | _ => rfl
  have hhand : (Task.tearing job).hand = .empty := by
    rw [Task.hand, hrecords, (I.fits t _ ht).2 hrecords, howes]
    rfl
  have I₁ := I.finishTask ht hhand
  unfold World.tear
  rw [hrecords]
  split
  next s hp => exact absurd hp (hphase s)
  next =>
    dsimp only
    split
    · exact putTask (η := .empty) (owe I₁) trivial (by rintro _ ⟨⟩) (by rintro _ ⟨⟩) (by rintro _ ⟨⟩)
    · exact putTask (η := .empty) I₁ trivial (by rintro _ ⟨⟩) (by rintro _ ⟨⟩) (by rintro _ ⟨⟩)
    · exact I₁

/-- The teardown goes on with another stage of its first record. -/
theorem tearOn {target : Option RetryTarget} {worker failed : Bool} {phase : TeardownPhase}
    (I : (w.endTask t).Inv ⟨(s, r) :: rs, [], phase.carries, phase.owes⟩) (hfits : phase.Fits w.log s r) :
    (w.setTask t (.tearing ⟨target, worker, (s, r) :: rs, phase, failed⟩)).Inv .empty := by
  refine putTask (η := .empty) I ⟨?_, nofun⟩ nofun nofun nofun
  rintro s r rest ⟨⟩
  exact hfits

theorem killed_of_finished (I : w.Inv η) (h : w.isFinished s) : .killed s ∈ w.log := by
  unfold isFinished at h
  cases hs : w.handles.lookup s with
  | none =>
    rw [hs] at h
    cases h
  | some handle =>
    rw [hs] at h
    have hhandle := I.handles s handle hs
    exact I.killed_of_ran (hhandle.1.1 (hhandle.2 h))

theorem tear (I : w.Inv .empty) (ht : w.tasks.lookup t = some (.tearing job)) : (w.tear t job ok).Inv .empty := by
  have I₁ := I.takeTask ht
  have hfits := I.fits t _ ht
  obtain ⟨target, worker, records, phase, failed⟩ := job
  cases phase with
  | enqueue s =>
    refine putTask (η := .empty) ?_ ⟨fun _ _ _ _ => trivial, fun _ => rfl⟩ nofun nofun nofun
    rw [enqueueTarget_endTask]
    exact enqueueTarget (q := .session s) I₁
  | token =>
    cases records with
    | nil => exact I.endTear ht rfl nofun
    | cons record rest =>
      refine tearOn ?_ rfl
      rw [unregisterToken_endTask]
      exact (takeToken I₁).unregisterToken
  | kill =>
    cases records with
    | nil => exact I.endTear ht rfl nofun
    | cons record rest =>
      obtain ⟨s, r⟩ := record
      have htoken : r.eventToken = none := hfits.1 s r rest rfl
      have hrecord := I₁.detached s r (.of_hand mem_cons_self)
      simp only [World.tear]
      split
      · exact tearOn I₁ htoken
      · have I₂ : ((if r.process then w.record (.killed s) else w).endTask t).Inv ⟨(s, r) :: rest, [], [], []⟩ := by
          split
          · exact I₁.record (e := .killed s) rfl nofun (I₁.lt_of_reserved hrecord.reserved)
          · exact I₁
        have hkilled : r.process → .killed s ∈ (if r.process then w.record (.killed s) else w).log := by
          intro hprocess
          rw [if_pos hprocess]
          exact mem_append_right _ (mem_singleton_self _)
        by_cases hcleanup : r.cleanup
        · rw [if_pos hcleanup]
          exact tearOn I₂ ⟨htoken, hkilled (hrecord.cleanup hcleanup)⟩
        · rw [if_neg hcleanup]
          exact tearOn I₂ ⟨htoken, hkilled⟩
  | cleaning phase =>
    cases records with
    | nil => exact I.endTear ht rfl nofun
    | cons record rest =>
      obtain ⟨s, r⟩ := record
      obtain ⟨htoken, hphase⟩ := hfits.1 s r rest rfl
      have hkilled := I.killed_of_fits hphase
      obtain ⟨I₂, hnext⟩ := cleanTask I₁ hphase
      obtain ⟨more, hlog⟩ : ∃ more, (w.clean s phase).1.log = w.log ++ more := clean_log
      simp only [World.tear]
      cases hp : (w.clean s phase).2 with
      | none =>
        rw [hp] at I₂
        exact tearOn I₂ ⟨htoken, hlog ▸ mem_append_left _ hkilled⟩
      | some p =>
        rw [hp] at I₂ hnext
        exact tearOn I₂ ⟨htoken, hnext p rfl⟩
  | check =>
    cases records with
    | nil => exact I.endTear ht rfl nofun
    | cons record rest =>
      obtain ⟨htoken, hkilled⟩ := hfits.1 record.1 record.2 rest rfl
      simp only [World.tear]
      by_cases hfinished : w.isFinished record.1
      · rw [if_pos hfinished]
        exact tearOn I₁ ⟨htoken, fun _ => hkilled⟩
      · rw [if_neg hfinished]
        exact tearOn I₁ htoken
  | judge =>
    cases records with
    | nil => exact I.endTear ht rfl nofun
    | cons record rest =>
      obtain ⟨s, r⟩ := record
      have htoken : r.eventToken = none := hfits.1 s r rest rfl
      simp only [World.tear]
      by_cases hfinished : r.cleanup && w.isFinished s
      · rw [hfinished]
        exact tearOn I₁ ⟨htoken, I.killed_of_finished (Bool.and_eq_true_iff.1 hfinished).2⟩
      · rw [Bool.eq_false_iff.2 hfinished]
        exact tearOn I₁ htoken
  | settle ok retry =>
    cases records with
    | nil => exact I.endTear ht rfl nofun
    | cons record rest =>
      obtain ⟨s, r⟩ := record
      have hphase := hfits.1 s r rest rfl
      have hrecord := I₁.detached s r (.of_hand mem_cons_self)
      have htoken : r.eventToken = none := by
        cases ok <;> cases retry
        · exact hphase.1
        · exact hphase
        · exact hphase.1
        · exact hphase.1
      have I₂ := settle (b := retry) I₁ htoken fun hretry hactivated => by
        cases hretry
        cases ok with
        | false => exact hphase.2
        | true => exact hphase.2 (hrecord.process.2 hactivated)
      rw [← settle_endTask] at I₂
      cases retry with
      | true | false =>
        exact putTask (η := .empty) I₂ ⟨fun _ _ _ _ => trivial, fun _ => rfl⟩ nofun nofun nofun

end Inv
end World

end LuaSkills.ManagedSessions
