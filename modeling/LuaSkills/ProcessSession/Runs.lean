import LuaSkills.ProcessSession.Moves

/-!
# Runs of the reaper

One lemma for each step. From any run of launches, kills, drops and passes: the reserved slots are those
of live permits and of children that the reaper has yet to collect, every child that was not collected has
one owner, and a keepalive that was handed off is released once, after its child was collected.
-/

namespace LuaSkills.ProcessSession

open AList List Option

variable {w w' : World} {η : Hand} {state : ManagedProcessSessionState} {task : Task} {t s c : ℕ}
  {ok : Bool}

namespace World.Inv

theorem new : World.new.Inv .empty where
  reserved := rfl
  bounded := Nat.zero_le _
  children := by
    have hnone : ∀ o, World.new.childrenOf .empty o = [] := by rintro ⟨⟩ <;> rfl
    refine ⟨⟨fun o => ?_, fun o o' c hc => ?_⟩, fun o c hc => ?_, nofun⟩
    · rw [hnone]; exact nodup_nil
    · rw [hnone] at hc; cases hc
    · rw [hnone] at hc; cases hc
  keepalives := by
    have hnone : ∀ o, World.new.keepalivesOf .empty o = [] := by rintro ⟨⟩ <;> rfl
    refine ⟨⟨fun o => ?_, fun o o' c hc => ?_⟩, fun o c hc => ?_, nofun⟩
    · rw [hnone]; exact nodup_nil
    · rw [hnone] at hc; cases hc
    · rw [hnone] at hc; cases hc
  spawned := nofun
  collected _ := ⟨nofun, nofun⟩
  saw := nofun
  knows := nofun
  on := nofun
  settled := nofun
  opened := nofun
  passed := nofun
  handed := nofun
  legal := .nil

/-! ## Launch -/

theorem reserve (I : w.Inv .empty) (h : w.reserve t keepalive = some w') : w'.Inv .empty := by
  unfold World.reserve at h
  split at h
  · cases h
  next ht =>
    obtain ⟨n, ks, hnew, I₁⟩ := I.newKeepalives keepalive
    simp only [hnew] at h
    split at h
    next hcapacity =>
      cases h
      exact beginTask (η := .empty) (newPermit I₁ hcapacity) ht rfl rfl nofun
    next =>
      cases h
      exact releaseAll I₁

theorem spawn (I : w.Inv .empty) (h : w.spawn t ok = some w') : w'.Inv .empty := by
  unfold World.spawn at h
  split at h
  next keepalive ht =>
    have I₁ : (w.endTask t).Inv ⟨1, [], keepalive⟩ := I.takeTask ht
    split at h
    · cases h
      exact putTask (η := .empty) I₁.newChild nofun nofun nofun
    · cases h
      exact I₁.dropPermit.releaseAll
  · cases h

theorem attach (I : w.Inv .empty) (h : w.attach t outcome = some w') : w'.Inv .empty := by
  unfold World.attach at h
  split at h
  next child keepalive ht =>
    have I₁ : (w.endTask t).Inv ⟨1, [child], keepalive⟩ := I.takeTask ht
    cases outcome with
    | failed =>
      cases h
      exact putTask (η := .empty) I₁ nofun nofun nofun
    | session guard =>
      cases h
      exact openSession (η := .empty) (w := w.endTask t) I₁ ⟨nofun, nofun, rfl⟩
    | oneShot guard =>
      cases h
      exact putTask (η := .empty) (w := w.releaseAll keepalive) I₁.releaseAll nofun nofun nofun
  · cases h

theorem rollback (I : w.Inv .empty) (h : w.rollback t ok = some w') : w'.Inv .empty := by
  unfold World.rollback at h
  split at h
  next child keepalive ht =>
    obtain ⟨⟨w₁, exited⟩, hwait, h⟩ := bind_eq_some_iff.1 h
    obtain ⟨processes, log, rfl, I₁, hreaped⟩ := I.waitUntil hwait
    have I₂ := I₁.takeTask ht
    simp only at h
    split at h
    next hexited =>
      cases h
      refine (I₂.forget fun c hc => ?_).dropPermit.releaseAll
      cases mem_singleton.1 hc
      exact hreaped hexited
    · split at h
      · cases h
      · cases h
        exact I₂.handoff
  · cases h

/-! ## One-shot children -/

theorem observe (I : w.Inv .empty) (h : w.observe t = some w') : w'.Inv .empty := by
  unfold World.observe at h
  split at h
  next child guard ht =>
    obtain ⟨processes, log, exited, hwait, I₁, hreaped⟩ := I.tryWait (c := child)
    rw [hwait] at h
    cases h
    refine I₁.updateTask ht rfl (fun c hc => ?_) nofun nofun
    cases exited with
    | false => cases hc
    | true => cases hc; exact hreaped rfl
  · cases h

theorem finalize (I : w.Inv .empty) (h : w.finalize t ok = some w') : w'.Inv .empty := by
  unfold World.finalize at h
  split at h
  next child guard observed ht =>
    obtain ⟨⟨w₁, exited⟩, hwait, rfl⟩ := map_eq_some_iff.1 h
    have hwaited : ∃ processes log, w₁ = { w with processes, log } ∧
        { w with processes, log }.Inv .empty ∧ (exited → processes.lookup child = some .reaped) := by
      split at hwait
      next hobserved =>
        cases hwait
        exact ⟨_, _, rfl, I, fun _ => I.saw t _ ht child (by rw [hobserved]; rfl)⟩
      next => exact I.waitUntil hwait
    obtain ⟨processes, log, rfl, I₁, hreaped⟩ := hwaited
    refine I₁.updateTask ht rfl (fun c hc => ?_) nofun nofun
    cases exited with
    | false => cases hc
    | true => cases hc; exact hreaped rfl
  · cases h

theorem converge (I : w.Inv .empty) (h : w.converge t treeEmpty keepalive = some w') : w'.Inv .empty := by
  unfold World.converge at h
  split at h
  next child guard directStatus ht =>
    have I₁ : (w.endTask t).Inv ⟨1, [child], []⟩ := I.takeTask ht
    simp only at h
    split at h
    next hcomplete =>
      cases h
      rw [Bool.and_eq_true] at hcomplete
      refine (I₁.forget fun c hc => ?_).dropPermit
      cases mem_singleton.1 hc
      exact I.saw t _ ht child (by rw [hcomplete.1]; rfl)
    next =>
      split at h
      · cases h
      · obtain ⟨n, ks, hnew, I₂⟩ := I₁.newKeepalives keepalive
        rw [hnew] at h
        cases h
        exact I₂.handoff
  · cases h

/-! ## Sessions -/

theorem install (I : w.Inv .empty) (h : w.install s = some w') : w'.Inv .empty := by
  unfold World.install at h
  split at h
  next state hs =>
    split at h
    · cases h
    cases h
    refine putSession (η := .empty) (w := { w with nextKeepalive := w.nextKeepalive + 1 })
      (I.takeSession hs).newKeepalive ?_ (fun t task ht hknows => I.knows t task ht s hknows state hs)
      (I.opened s state hs)
    exact ⟨(I.settled s state hs).permit, (I.settled s state hs).status, (I.settled s state hs).child⟩
  · cases h

/-- Flags of a session that decide nothing here. -/
theorem flag {terminated locked dropping : Bool} (I : w.Inv η) (hs : w.sessions.lookup s = some state) :
    (w.setSession s { state with
      processTreeTerminated := terminated, childLocked := locked, dropping := dropping }).Inv η :=
  I.updateSession hs rfl id
    ⟨(I.settled s state hs).permit, (I.settled s state hs).status, (I.settled s state hs).child⟩

theorem kill (I : w.Inv .empty) (h : w.kill t s = some w') : w'.Inv .empty := by
  unfold World.kill at h
  split at h
  next state hs =>
    split at h
    · cases h
    next hidle =>
      cases h
      refine beginTask (η := .empty) (I.flag hs) (fun hmem => hidle (.inl hmem)) rfl rfl fun s' hs' => ?_
      cases hs'
      exact I.opened s state hs
  · cases h

theorem drop (I : w.Inv .empty) (h : w.drop t s = some w') : w'.Inv .empty := by
  unfold World.drop at h
  split at h
  next state hs =>
    split at h
    · cases h
    next hidle =>
      cases h
      refine beginTask (η := .empty) (I.flag hs) (fun hmem => hidle (.inl hmem)) rfl rfl fun s' hs' => ?_
      cases hs'
      exact I.opened s state hs
  · cases h

theorem terminate (I : w.Inv .empty) (h : w.terminate t ok = some w') : w'.Inv .empty := by
  unfold World.terminate at h
  split at h
  next s dropping ht =>
    obtain ⟨state, hs, h⟩ := bind_eq_some_iff.1 h
    have hopened := I.opened s state hs
    split at h
    · cases h
      exact (I.flag hs).returned ht rfl hopened nofun
    split at h
    next hstatus =>
      cases h
      refine (I.flag hs).returned ht rfl hopened fun _ state' hstate' => ?_
      cases (lookup_insert w.sessions).symm.trans hstate'
      exact hstatus
    next =>
      cases h
      refine (I.flag hs).updateTask ht rfl nofun nofun fun s' hs' => ?_
      cases hs'
      exact hopened
  · cases h

theorem wait (I : w.Inv .empty) (h : w.wait t ok = some w') : w'.Inv .empty := by
  unfold World.wait at h
  split at h
  next s dropping ht =>
    obtain ⟨state, hs, h⟩ := bind_eq_some_iff.1 h
    obtain ⟨child, hchild, h⟩ := bind_eq_some_iff.1 h
    obtain ⟨⟨w₁, exited⟩, hwait, h⟩ := bind_eq_some_iff.1 h
    obtain ⟨processes, log, rfl, I₁, hreaped⟩ := I.waitUntil hwait
    have hopened := I.opened s state hs
    simp only at h
    split at h
    next hexited =>
      cases h
      have I₂ : (World.setSession { w with processes, log } s
          { state with finalStatus := true, childLocked := false }).Inv .empty := by
        refine I₁.updateSession hs rfl (fun _ => rfl) ⟨fun _ => rfl, fun _ c hc => ?_,
          (I.settled s state hs).child⟩
        cases hchild.symm.trans hc
        exact hreaped hexited
      refine I₂.updateTask ht rfl nofun (fun s' hs' state' hstate' => ?_) fun s' hs' => ?_
      · cases hs'
        cases (lookup_insert w.sessions).symm.trans hstate'
        rfl
      · cases hs'
        exact hopened
    next =>
      cases h
      exact (I₁.flag hs).returned ht rfl hopened nofun
  · cases h

theorem returnPermit (I : w.Inv .empty) (h : w.returnPermit t = some w') : w'.Inv .empty := by
  unfold World.returnPermit at h
  split at h
  next s dropping ht =>
    obtain ⟨state, hs, h⟩ := bind_eq_some_iff.1 h
    have hstatus := I.knows t _ ht s rfl state hs
    have hsettled : { state with reaperPermit := false }.Settled w.processes :=
      ⟨fun _ => hstatus, (I.settled s state hs).status, (I.settled s state hs).child⟩
    have hend : ∀ {w₁ : World}, w₁.sessions = w.sessions.insert s { state with reaperPermit := false } →
        w₁.tasks = w.tasks → w₁.nextSession = w.nextSession → w₁.Inv .empty →
        (w₁.setTask t (.killing s .settled dropping)).Inv .empty := by
      intro w₁ hsessions htasks hnext I₁
      refine I₁.updateTask (show w₁.tasks.lookup t = some (.killing s .reaped dropping) by rw [htasks]; exact ht) rfl nofun
        (fun s' hs' state' hstate' => ?_) fun s' hs' => ?_
      · cases hs'
        rw [hsessions] at hstate'
        cases (lookup_insert w.sessions).symm.trans hstate'
        exact hstatus
      · cases hs'
        rw [hnext]
        exact I.opened s state hs
    cases h
    split
    next hpermit =>
      have I₁ := I.takeSession hs
      have hhand : Hand.empty.add state.hand = ⟨0 + 1, state.child.toList, state.finalReaperKeepalive⟩ := by
        simp only [Hand.add, Hand.empty, ManagedProcessSessionState.hand, hpermit, if_true, nil_append]
      rw [hhand] at I₁
      exact @hend (w.dropPermit.setSession s { state with reaperPermit := false }) rfl rfl rfl
        (putSession (η := .empty) (w := w.dropPermit) I₁.dropPermit hsettled (fun _ _ _ _ => hstatus)
          (I.opened s state hs))
    next hpermit =>
      refine hend rfl rfl rfl (I.updateSession hs ?_ id hsettled)
      simp only [ManagedProcessSessionState.hand, hpermit, Bool.false_eq_true, if_false]
  · cases h

theorem returnKeepalive (I : w.Inv .empty) (h : w.returnKeepalive t = some w') : w'.Inv .empty := by
  unfold World.returnKeepalive at h
  split at h
  next s dropping ht =>
    obtain ⟨state, hs, h⟩ := bind_eq_some_iff.1 h
    have hstatus := I.knows t _ ht s rfl state hs
    cases h
    have I₁ : ((w.releaseAll state.finalReaperKeepalive).setSession s
        { state with finalReaperKeepalive := [], detachedGuard := false }).Inv .empty :=
      putSession (η := .empty) (I.takeSession hs).releaseAll
        ⟨(I.settled s state hs).permit, (I.settled s state hs).status, (I.settled s state hs).child⟩
        (fun _ _ _ _ => hstatus) (I.opened s state hs)
    refine I₁.returned ht rfl (I.opened s state hs) fun _ state' hstate' => ?_
    cases (lookup_insert w.sessions).symm.trans hstate'
    exact hstatus
  · cases h

theorem dropState (I : w.Inv .empty) (h : w.dropState t = some w') : w'.Inv .empty := by
  unfold World.dropState at h
  split at h
  next s killed ht =>
    obtain ⟨state, hs, hdone⟩ := bind_eq_some_iff.1 h
    have hsettled := I.settled s state hs
    obtain ⟨child, hchild⟩ := isSome_iff_exists.1 hsettled.child
    have I₁ : ((w.endSession s).endTask t).Inv (Hand.empty.add state.hand) :=
      (I.takeSession hs).finishTask ht rfl
    have hcollected : state.finalStatus → ∀ c ∈ [child], w.processes.lookup c = some .reaped := by
      intro hstatus c hc
      cases mem_singleton.1 hc
      exact hsettled.status hstatus child hchild
    simp only [Hand.add, Hand.empty, ManagedProcessSessionState.hand, hchild, nil_append,
      toList_some] at I₁
    rw [hchild] at hdone
    cases hpermit : state.reaperPermit with
    | false =>
      rw [hpermit] at hdone I₁
      have I₂ := I₁.forget (hcollected (hsettled.permit hpermit))
      cases killed with
      | false | true => cases hdone; exact I₂.releaseAll
    | true =>
      rw [hpermit] at hdone I₁
      cases killed with
      | false =>
        simp only at hdone
        split at hdone
        · cases hdone
        · cases hdone
          exact I₁.handoff
      | true =>
        cases hdone
        exact (I₁.forget (hcollected (I.knows t _ ht s rfl state hs))).dropPermit.releaseAll
  · cases h

/-! ## The reaper -/

theorem exit (I : w.Inv .empty) (h : w.exit c = some w') : w'.Inv .empty := by
  unfold World.exit at h
  split at h
  next hc =>
    cases h
    exact I.exited hc
  · cases h

theorem wake (I : w.Inv .empty) (h : w.wake = some w') : w'.Inv .empty := by
  unfold World.wake at h
  split at h
  next hpass =>
    split at h
    · cases h
    · cases h
      exact I.moveRecords (by rw [hpass]; rfl) (by rw [records, hpass]; exact .refl _) nofun
  · cases h

theorem report (I : w.Inv .empty) (hpass : w.pass = .polling index reaped)
    (hrecord : w.queue[index]? = some record) : { w with
      queue := w.queue.set index { record with pollErrorReported := true }
      pass := .polling (index + 1) reaped }.Inv .empty := by
  refine I.moveRecords (by rw [hpass, length_set]; rfl) ?_ fun r hr => I.passed r (by rw [hpass]; exact hr)
  obtain ⟨hlt, rfl⟩ := List.getElem?_eq_some_iff.1 hrecord
  have hset : (w.queue.set index { w.queue[index] with pollErrorReported := true }).map
      (fun r => (r.child, r.keepalive)) = w.queue.map fun r => (r.child, r.keepalive) := by
    have hlt' : index < (w.queue.map fun r => (r.child, r.keepalive)).length := by rwa [length_map]
    have hself := set_getElem_self hlt'
    rw [getElem_map] at hself
    rw [map_set]
    exact hself
  rw [records, hpass, map_append, hset, map_append]
  exact .refl _

theorem poll (I : w.Inv .empty) (h : w.poll tree ok = some w') : w'.Inv .empty := by
  unfold World.poll at h
  split at h
  next index reaped hpass =>
    obtain ⟨record, hrecord, h⟩ := bind_eq_some_iff.1 h
    simp only at h
    split at h
    · cases h
      exact I.report hpass hrecord
    next treeEmpty _ =>
      split at h
      · obtain ⟨processes, log, exited, hwait, I₁, hreaped⟩ := I.tryWait (c := record.child)
        rw [hwait] at h
        simp only at h
        split at h
        next hdone =>
          cases h
          rw [Bool.and_eq_true] at hdone
          have hperm := perm_swapRemove hrecord
          refine I₁.moveRecords ?_ ?_ fun r hr => ?_
          · have hlength := hperm.length_eq
            simp only [hpass, Pass.pending, length_append, length_cons, length_nil] at hlength ⊢
            omega
          · refine Perm.map _ ?_
            simp only [records, hpass, Pass.records, Pass.pending]
            calc w.queue.swapRemove index ++ (reaped ++ [record])
              _ |>.Perm (record :: (w.queue.swapRemove index ++ reaped)) := by
                rw [← append_assoc]
                exact perm_append_singleton record _
              _ |>.Perm (w.queue ++ reaped) := (hperm.append_right reaped).symm
          · rcases mem_append.1 hr with hr | hr
            · exact I₁.passed r (by rw [hpass]; exact hr)
            · cases mem_singleton.1 hr
              exact hreaped hdone.1
        next =>
          cases h
          exact I₁.moveRecords (by rw [hpass]; rfl) (by rw [records, hpass]; exact .refl _)
            fun r hr => I₁.passed r (by rw [hpass]; exact hr)
      · cases h
        exact I.report hpass hrecord
  · cases h

theorem unlock (I : w.Inv .empty) (h : w.unlock = some w') : w'.Inv .empty := by
  unfold World.unlock at h
  split at h
  next index reaped hpass =>
    split at h
    · cases h
      exact I.moveRecords (by rw [hpass]; rfl) (by rw [records, hpass]; exact .refl _)
        fun r hr => I.passed r (by rw [hpass]; exact hr)
    · cases h
  · cases h

theorem count (I : w.Inv .empty) (h : w.count = some w') : w'.Inv .empty := by
  unfold World.count at h
  split at h
  next record rest hpass =>
    cases h
    refine dropPermit (show World.Inv _ ⟨0 + 1, _, _⟩ from I.moveRecords ?_ (by rw [records, hpass]; exact .refl _)
      fun r hr => I.passed r (by rw [hpass]; exact hr))
    rw [hpass]
    simp only [Pass.pending, length_cons]
    omega
  · cases h

theorem sleep (I : w.Inv .empty) (h : w.sleep = some w') : w'.Inv .empty := by
  unfold World.sleep at h
  split at h
  next hpass =>
    cases h
    exact I.moveRecords (by rw [hpass]; rfl) (by rw [records, hpass]; exact .refl _) nofun
  · cases h

theorem step (I : w.Inv .empty) (h : w.step a = some w') : w'.Inv .empty := by
  cases a with
  | reserve => exact I.reserve h
  | spawn => exact I.spawn h
  | attach => exact I.attach h
  | rollback => exact I.rollback h
  | observe => exact I.observe h
  | finalize => exact I.finalize h
  | converge => exact I.converge h
  | install => exact I.install h
  | kill => exact I.kill h
  | drop => exact I.drop h
  | terminate => exact I.terminate h
  | wait => exact I.wait h
  | returnPermit => exact I.returnPermit h
  | returnKeepalive => exact I.returnKeepalive h
  | dropState => exact I.dropState h
  | exit => exact I.exit h
  | wake => exact I.wake h
  | poll => exact I.poll h
  | unlock => exact I.unlock h
  | count => exact I.count h
  | release =>
    simp only [World.step, World.release] at h
    split at h
    next record rest hpass =>
      cases h
      exact I.release hpass
    · cases h
  | sleep => exact I.sleep h

theorem run (I : w.Inv .empty) (h : w.run actions = some w') : w'.Inv .empty := by
  induction actions generalizing w with
  | nil =>
    cases h
    exact I
  | cons a actions ih =>
    obtain ⟨w₁, hstep, h⟩ := bind_eq_some_iff.1 h
    exact ih (I.step hstep) h

end World.Inv

/-! ## What runs keep -/

/-- The reserved slots are those of live permits and of records yet to be counted, within the capacity; a
child that was not collected has one owner, which is a caller, a session or the reaper; and a keepalive
that was handed off with a child is in that child's record or was released once, after the child was
collected. -/
structure World.Accounted (w : World) : Prop where
  reserved : w.reserved = w.livePermits + w.queue.length + w.pass.pending.length
  bounded : w.reserved ≤ detachedChildReaperCapacity
  owned : ∀ c p, w.processes.lookup c = some p → p ≠ .reaped → ∃! o, c ∈ w.childrenOf .empty o
  owner : ∀ c o, c ∈ w.childrenOf .empty o → o ≠ .hand ∧ o ≠ .released
  kept : ∀ c ks, .handedOff c ks ∈ w.log → ∀ k ∈ ks,
    (w.log.count (.released k) = 0 ∧ ∃ r ∈ w.records, r.child = c ∧ k ∈ r.keepalive) ∨
      w.log.count (.released k) = 1 ∧ ∃ before after,
        w.log = before ++ .released k :: after ∧ .reaped c ∈ before

theorem count_released {log : List Event} :
    log.count (.released k) = (log.filterMap Event.release).count k := by
  induction log with
  | nil => rfl
  | cons e log ih =>
    cases e with
    | released k' =>
      rw [count_cons, ih, filterMap_cons_some (f := Event.release) (b := k') rfl, count_cons]
      simp only [beq_iff_eq, Event.released.injEq]
    | reaped | handedOff =>
      rw [filterMap_cons_none (f := Event.release) rfl, ← ih]
      exact count_cons_of_ne (by simp)

/-- A release comes after the hand-off of its keepalive, and after the child of that was collected. -/
theorem collected_of_released (hlegal : LegalLog Legal log) (hreleased : .released k ∈ log)
    (hhanded : .handedOff c ks ∈ log) (hk : k ∈ ks) :
    ∃ before after, log = before ++ .released k :: after ∧ .reaped c ∈ before := by
  obtain ⟨before, after, hlog, hnew, hcollected⟩ := hlegal.of_mem hreleased
  refine ⟨before, after, hlog, hcollected c ks ?_ hk⟩
  rw [hlog] at hhanded hlegal
  rcases mem_append.1 hhanded with hmem | hmem
  · exact hmem
  rcases mem_cons.1 hmem with hmem | hmem
  · cases hmem
  · obtain ⟨mid, last, rfl⟩ := append_of_mem hmem
    have hhandoff : Legal (before ++ .released k :: mid) (.handedOff c ks) :=
      hlegal _ _ last (by rw [append_assoc, cons_append])
    exact absurd (mem_append_right _ mem_cons_self) (hhandoff k hk).1

theorem World.Inv.accounts (I : w.Inv .empty) : w.Accounted where
  reserved := I.reserved
  bounded := I.bounded
  owned c p hc hp := I.children.existsUnique (I.spawned c p hc) fun hreaped => by
    rw [hc] at hreaped
    exact hp (some.inj hreaped)
  owner c o hc := by
    constructor
    · rintro rfl
      cases hc
    · rintro rfl
      cases hc
  kept c ks hhanded k hk := by
    by_cases hreleased : .released k ∈ w.log
    · refine .inr ⟨?_, collected_of_released I.legal hreleased hhanded hk⟩
      have hnodup : (w.log.filterMap Event.release).Nodup := I.keepalives.custody.nodup .released
      rw [count_released, hnodup.count]
      exact if_pos (World.Inv.mem_released.2 hreleased)
    · refine .inl ⟨count_eq_zero.2 hreleased, ?_⟩
      exact (I.handed c ks hhanded k hk).resolve_left hreleased

/-- Every run of launches, kills, drops and passes is accounted for. -/
theorem World.reaperAccounts {actions : List Action} (h : World.new.run actions = some w) : w.Accounted :=
  (World.Inv.new.run h).accounts

namespace Example

/-- A session is killed in vain and dropped, its child exits in the reaper's queue, and a second session is
launched while the reaper polls. -/
def orphan : List Action :=
  [.reserve 0 true, .spawn 0 true, .attach 0 (.session true), .install 0, .kill 1 0, .terminate 1 true,
    .wait 1 false, .drop 2 0, .terminate 2 true, .wait 2 false, .dropState 2, .reserve 3 false, .wake,
    .poll (some false) false, .unlock, .sleep, .exit 0, .wake, .spawn 3 true, .poll (some true) true, .unlock,
    .count, .release, .sleep]

theorem orphan_accounted : ∃ w, World.new.run orphan = some w ∧ w.reserved = 1 ∧
    w.log = [.handedOff 0 [0, 1], .reaped 0, .released 0, .released 1] ∧ w.Accounted := by
  obtain ⟨w, hrun, hw⟩ := map_eq_some_iff.mp (show (World.new.run orphan).map
    (fun w => (w.reserved, w.log)) = some (1, [.handedOff 0 [0, 1], .reaped 0, .released 0, .released 1])
    by decide +kernel)
  exact ⟨w, hrun, congrArg Prod.fst hw, congrArg Prod.snd hw, World.reaperAccounts hrun⟩

end Example

end LuaSkills.ProcessSession
