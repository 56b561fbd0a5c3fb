import LuaSkills.Data.EventLog
import LuaSkills.Ffi.Slot

/-!
# The life of a runtime slot

The invariant of every interleaving of calls on one slot, and what it says about construction, leases,
closing, reports and release.
-/

namespace LuaSkills.Ffi.World

open Embedded AList List Option World

variable {w w' : World} {t : ℕ} {task old : Task} {lease : RuntimeLease} {e : Event}
  {slot slot' : RuntimeState} {core core' : Option Core} {store store' : Option PersistenceOwner}
  {fault : Option EmbeddedError}

/-- The slot closes, its construction is over without a fault, and every worker it created has drained. -/
structure Quiet (slot : RuntimeState) (core : Option Core) (store : Option PersistenceOwner) : Prop where
  closing : slot.closing
  concluded : slot.initialization ≠ .initializing ∧ slot.initialization ≠ .faulted
  coreDrained : ∀ c, core = some c → c.drained
  storeDrained : ∀ s, store = some s → s.drained

/-- The runtime, or the storage owner when there is no runtime, was asked to close. -/
structure Asked (core : Option Core) (store : Option PersistenceOwner) : Prop where
  coreAsked : ∀ c, core = some c → c.asked
  storeAsked : core = none → ∀ s, store = some s → s.asked

def TaskSound (slot : RuntimeState) (core : Option Core) (store : Option PersistenceOwner) : Task → Prop
  | .constructing => slot.initialization = .initializing
  | .leased lease => lease.runtime = true
  | .asking lease | .concluding lease =>
    lease = ⟨core.isSome, store.isSome⟩ ∧ slot.initialization ≠ .reserved ∧
      slot.initialization ≠ .initializing
  | .probing lease poll first late =>
    (poll = true → lease = ⟨core.isSome, store.isSome⟩ ∧ slot.closing = true ∧
      (slot.initialization = .ready ∨ slot.initialization = .failed)) ∧
    (poll = false → first = false) ∧ (late = true → poll = true ∧ Quiet slot core store)
  | .settling _ | .dropping => True

/-- A call that is about to ask the core to close. -/
def Task.AboutToAsk : Task → Prop
  | .asking _ | .concluding _ => True
  | _ => False

/-- No lease is created after the release, and none that admits work after a request to close. -/
def LegalEvent (before : List Event) : Event → Prop
  | .leased admission => .released ∉ before ∧ (admission = true → .closeRequested ∉ before)
  | _ => True

structure Inv (w : World) : Prop where
  accounted : w.slot.active = w.tasks.size
  started : w.log.count .constructionStarted = if w.slot.initialization = .reserved then 0 else 1
  holdsCore : w.slot.runtime = (w.core.isSome && !w.slot.released)
  holdsStore : w.slot.persistence = (w.store.isSome && !w.slot.released)
  corePhase : w.core.isSome ↔ w.slot.initialization = .ready
  storePhase : w.slot.initialization = .reserved → w.store = none
  released : w.slot.released → w.tasks.size = 0 ∧ Quiet w.slot w.core w.store
  drained : ∀ c, w.core = some c → c.drained → c.closing
  tasks : ∀ t task, w.tasks.lookup t = some task → TaskSound w.slot w.core w.store task
  sole : ∀ t t', w.tasks.lookup t = some .constructing → w.tasks.lookup t' = some .constructing → t = t'
  reaches : w.slot.closing → w.slot.initialization ≠ .initializing →
    Asked w.core w.store ∨ ∃ t task, w.tasks.lookup t = some task ∧ Task.AboutToAsk task
  reported : ∀ late, .reported true late ∈ w.log → Quiet w.slot w.core w.store
  neverBack : .reported false true ∉ w.log
  closeRequested : .closeRequested ∈ w.log → w.slot.closing
  releasedLog : .released ∈ w.log → w.slot.released
  legal : LegalLog LegalEvent w.log

/-! ## What tasks know -/

/-- Nothing that tasks rely on has changed. -/
structure Later (slot slot' : RuntimeState) (core core' : Option Core)
    (store store' : Option PersistenceOwner) : Prop where
  samePhase : slot'.initialization = slot.initialization
  sameCore : core'.isSome = core.isSome
  sameStore : store'.isSome = store.isSome
  closing : slot.closing → slot'.closing
  quiet : Quiet slot core store → Quiet slot' core' store'

theorem TaskSound.later (h : TaskSound slot core store task)
    (hl : Later slot slot' core core' store store') : TaskSound slot' core' store' task := by
  cases task with
  | constructing => exact hl.samePhase.trans h
  | leased => exact h
  | asking lease | concluding lease =>
    simp only [TaskSound] at h ⊢
    rw [hl.samePhase, hl.sameCore, hl.sameStore]
    exact h
  | probing lease poll first late =>
    obtain ⟨hpoll, hfirst, hlate⟩ := h
    refine ⟨fun h => ?_, hfirst, fun h => ⟨(hlate h).1, hl.quiet (hlate h).2⟩⟩
    rw [hl.samePhase, hl.sameCore, hl.sameStore]
    exact ⟨(hpoll h).1, hl.closing (hpoll h).2.1, (hpoll h).2.2⟩
  | settling | dropping => trivial

/-- Until the construction is over, only the constructing call knows anything about it. -/
theorem TaskSound.unfinished (h : TaskSound slot core store task)
    (hphase : slot.initialization = .reserved ∨ slot.initialization = .initializing)
    (hne : task ≠ .constructing) : TaskSound slot' core' store' task := by
  cases task with
  | constructing => exact (hne rfl).elim
  | leased => exact h
  | asking lease | concluding lease =>
    rcases hphase with hphase | hphase
    · exact (h.2.1 hphase).elim
    · exact (h.2.2 hphase).elim
  | probing lease poll first late =>
    obtain ⟨hpoll, hfirst, hlate⟩ := h
    have hno : poll ≠ true := by
      intro hp
      obtain ⟨_, _, hready | hfailed⟩ := hpoll hp
      · rcases hphase with hphase | hphase <;> simp [hphase] at hready
      · rcases hphase with hphase | hphase <;> simp [hphase] at hfailed
    exact ⟨fun hp => (hno hp).elim, hfirst, fun hl => (hno (hlate hl).1).elim⟩
  | settling | dropping => trivial

namespace Inv

theorem new : new.Inv where
  accounted := rfl
  started := rfl
  holdsCore := rfl
  holdsStore := rfl
  corePhase := by simp [World.new, RuntimeState.new]
  storePhase _ := rfl
  released := by simp [World.new, RuntimeState.new]
  drained _ h := nomatch h
  tasks t task h := by simp [World.new] at h
  sole t t' h := by simp [World.new] at h
  reaches := by simp [World.new, RuntimeState.new]
  reported := by simp [World.new]
  neverBack := by simp [World.new]
  closeRequested := by simp [World.new]
  releasedLog := by simp [World.new]
  legal := .nil

/-! ## Tasks and events -/

theorem not_released (I : Inv w) (h : w.tasks.lookup t = some task) : w.slot.released = false := by
  rw [← Bool.not_eq_true]
  intro hreleased
  have hsize := size_of_lookup h
  have := (I.released hreleased).1
  omega

theorem record (I : Inv w) (hlegal : LegalEvent w.log e) (hstart : e ≠ .constructionStarted)
    (hclose : e = .closeRequested → w.slot.closing) (hreleased : e = .released → w.slot.released)
    (hquiet : ∀ late, e = .reported true late → Quiet w.slot w.core w.store)
    (hback : e ≠ .reported false true) : (w.record e).Inv := { I with
  started := by
    have hcount : (w.log ++ [e]).count .constructionStarted = w.log.count .constructionStarted := by
      simp [count_append, hstart]
    exact hcount.trans I.started
  reported late h := by
    rcases mem_append.mp h with h | h
    · exact I.reported late h
    · exact hquiet late (mem_singleton.mp h).symm
  neverBack h := by
    rcases mem_append.mp h with h | h
    · exact I.neverBack h
    · exact hback (mem_singleton.mp h).symm
  closeRequested h := by
    rcases mem_append.mp h with h | h
    · exact I.closeRequested h
    · exact hclose (mem_singleton.mp h).symm
  releasedLog h := by
    rcases mem_append.mp h with h | h
    · exact I.releasedLog h
    · exact hreleased (mem_singleton.mp h).symm
  legal := I.legal.append hlegal }

/-- A task goes on to its next part. -/
theorem setTask (I : Inv w) (hold : w.tasks.lookup t = some old)
    (hsound : TaskSound w.slot w.core w.store task) (hne : task ≠ .constructing)
    (hreach : Task.AboutToAsk old → Asked w.core w.store) : (w.setTask t task).Inv := { I with
  accounted := by
    exact I.accounted.trans (size_insert_of_lookup hold).symm
  released h := by simp [World.setTask, I.not_released hold] at h
  tasks t' task' h := by
    rcases lookup_of_insert h with ⟨-, rfl⟩ | ⟨-, h⟩
    · exact hsound
    · exact I.tasks t' task' h
  sole t₁ t₂ h₁ h₂ := by
    simp only [World.setTask, lookup_insert_eq] at h₁ h₂
    split at h₁
    · exact (hne (some.inj h₁)).elim
    · split at h₂
      · exact (hne (some.inj h₂)).elim
      · exact I.sole t₁ t₂ h₁ h₂
  reaches hclosing hphase := by
    rcases I.reaches hclosing hphase with hasked | ⟨t', task', hlookup, hask⟩
    · exact .inl hasked
    · rcases eq_or_ne t' t with rfl | hne'
      · cases hold.symm.trans hlookup
        exact .inl (hreach hask)
      · refine .inr ⟨t', task', ?_, hask⟩
        simpa [World.setTask, lookup_insert_eq, hne'] using hlookup }

/-- A new call adds itself to the users of the slot. -/
theorem join (I : Inv w) (ht : t ∉ w.tasks) (hreleased : w.slot.released = false)
    (hsound : TaskSound w.slot w.core w.store task) (hne : task ≠ .constructing) :
    (w.join t task).Inv := { I with
  accounted := by
    show w.slot.active + 1 = (w.tasks.insert t task).size
    rw [size_insert_of_notMem ht, I.accounted]
  released h := by simp [World.join, hreleased] at h
  tasks t' task' h := by
    have hlater : Later w.slot (w.join t task).slot w.core w.core w.store w.store :=
      ⟨rfl, rfl, rfl, id, fun h => ⟨h.closing, h.concluded, h.coreDrained, h.storeDrained⟩⟩
    rcases lookup_of_insert h with ⟨-, rfl⟩ | ⟨-, h⟩
    · exact hsound.later hlater
    · exact (I.tasks t' task' h).later hlater
  sole t₁ t₂ h₁ h₂ := by
    simp only [World.join, lookup_insert_eq] at h₁ h₂
    split at h₁
    · exact (hne (some.inj h₁)).elim
    · split at h₂
      · exact (hne (some.inj h₂)).elim
      · exact I.sole t₁ t₂ h₁ h₂
  reaches hclosing hphase := by
    rcases I.reaches hclosing hphase with hasked | ⟨t', task', hlookup, hask⟩
    · exact .inl hasked
    · have hne' : t' ≠ t := by
        rintro rfl
        exact ht (mem_of_lookup hlookup)
      refine .inr ⟨t', task', ?_, hask⟩
      simpa [World.join, lookup_insert_eq, hne'] using hlookup
  reported late h :=
    have hquiet := I.reported late h
    ⟨hquiet.closing, hquiet.concluded, hquiet.coreDrained, hquiet.storeDrained⟩ }

/-- The last section of a call that has nothing left to ask. -/
theorem leave (I : Inv w) (hold : w.tasks.lookup t = some old) (hask : ¬ Task.AboutToAsk old)
    (h : w.leave t = some w') : w'.Inv := by
  simp only [World.leave, bind_eq_bind, bind_eq_some_iff, checkedSub_eq_some,
    Option.pure_def, Option.some.injEq] at h
  obtain ⟨active, ⟨_, rfl⟩, rfl⟩ := h
  have hsize := size_of_lookup hold
  exact { I with
    accounted := by
      show w.slot.active - 1 = (w.tasks.erase t).size
      rw [I.accounted, hsize, Nat.add_sub_cancel]
    released := fun h => by simp [I.not_released hold] at h
    tasks := fun t' task' h => by
      simp only [lookup_erase_eq] at h
      split at h
      · cases h
      · exact (I.tasks t' task' h).later
          ⟨rfl, rfl, rfl, id, fun h => ⟨h.closing, h.concluded, h.coreDrained, h.storeDrained⟩⟩
    sole := fun t₁ t₂ h₁ h₂ => by
      simp only [lookup_erase_eq] at h₁ h₂
      split at h₁
      · cases h₁
      · split at h₂
        · cases h₂
        · exact I.sole t₁ t₂ h₁ h₂
    reaches := fun hclosing hphase => by
      rcases I.reaches hclosing hphase with hasked | ⟨t', task', hlookup, hask'⟩
      · exact .inl hasked
      · have hne : t' ≠ t := by
          rintro rfl
          cases hold.symm.trans hlookup
          exact hask hask'
        exact .inr ⟨t', task', by simpa [lookup_erase_eq, hne] using hlookup, hask'⟩
    reported := fun late h =>
      have hquiet := I.reported late h
      ⟨hquiet.closing, hquiet.concluded, hquiet.coreDrained, hquiet.storeDrained⟩ }

/-! ## Construction -/

theorem initializeWith (I : Inv w) (ht : t ∉ w.tasks) (h : w.initializeWith t = .ok w') : w'.Inv := by
  simp only [World.initializeWith, Except.bind_eq_ok, refuseIf_eq_ok] at h
  obtain ⟨_, hreleased, _, hclosing, _, hphase, heq⟩ := h
  cases heq
  rw [Bool.not_eq_true] at hreleased hclosing
  have hphase : w.slot.initialization = .reserved := not_not.mp hphase
  have hfresh : ∀ t' task', w.tasks.lookup t' = some task' → t' ≠ t ∧ task' ≠ .constructing := by
    intro t' task' hlookup
    refine ⟨?_, ?_⟩
    · rintro rfl
      exact ht (mem_of_lookup hlookup)
    · rintro rfl
      exact nomatch hphase.symm.trans (I.tasks t' _ hlookup)
  exact { I with
    accounted := by
      show w.slot.active + 1 = (w.tasks.insert t .constructing).size
      rw [size_insert_of_notMem ht, I.accounted]
    started := by
      have hstarted := I.started
      rw [if_pos hphase] at hstarted
      show (w.log ++ [Event.constructionStarted]).count Event.constructionStarted = _
      rw [count_append, hstarted]
      rfl
    corePhase := by
      have hcore := I.corePhase
      rw [hphase] at hcore
      exact ⟨fun h => (nomatch hcore.mp h), nofun⟩
    storePhase := nofun
    released := fun h => nomatch hreleased.symm.trans h
    tasks := fun t' task' h => by
      rcases lookup_of_insert h with ⟨-, rfl⟩ | ⟨-, h⟩
      · rfl
      · exact (I.tasks t' task' h).unfinished (.inl hphase) (hfresh t' task' h).2
    sole := fun t₁ t₂ h₁ h₂ => by
      simp only [World.record, World.join, lookup_insert_eq] at h₁ h₂
      split at h₁
      next heq₁ =>
        split at h₂
        next heq₂ => rw [heq₁, heq₂]
        next => exact ((hfresh t₂ _ h₂).2 rfl).elim
      next => exact ((hfresh t₁ _ h₁).2 rfl).elim
    reaches := fun h => nomatch hclosing.symm.trans h
    reported := fun late h => by
      rcases mem_append.mp h with h | h
      · exact nomatch hclosing.symm.trans (I.reported late h).closing
      · simp at h
    neverBack := fun h => by
      rcases mem_append.mp h with h | h
      · exact I.neverBack h
      · simp at h
    closeRequested := fun h => by
      rcases mem_append.mp h with h | h
      · exact I.closeRequested h
      · simp at h
    releasedLog := fun h => by
      rcases mem_append.mp h with h | h
      · exact I.releasedLog h
      · simp at h
    legal := I.legal.append trivial }

theorem publishStore (I : Inv w) (hold : w.tasks.lookup t = some .constructing) :
    w.publishStore.Inv := by
  have hphase : w.slot.initialization = .initializing := I.tasks t _ hold
  have hreleased := I.not_released hold
  exact { I with
    holdsStore := by simp [World.publishStore, hreleased]
    storePhase := fun h => nomatch hphase.symm.trans h
    released := fun h => nomatch hreleased.symm.trans h
    tasks := fun t' task' h => by
      by_cases hc : task' = .constructing
      · subst hc
        exact hphase
      · exact (I.tasks t' task' h).unfinished (.inr hphase) hc
    reaches := fun _ h => (h hphase).elim
    reported := fun late h => ((I.reported late h).concluded.1 hphase).elim }

/-- The second section of a construction, whatever its outcome: a slot that closes leaves the task
about to ask. -/
theorem concluded (I : Inv w) (hold : w.tasks.lookup t = some .constructing)
    (hphase : slot.initialization ≠ .reserved ∧ slot.initialization ≠ .initializing)
    (hclosing : slot.closing = w.slot.closing) (hreleased : slot.released = w.slot.released)
    (hactive : slot.active = w.slot.active) (hpersistence : slot.persistence = w.slot.persistence)
    (hruntime : slot.runtime = core.isSome) (hcore : core.isSome ↔ slot.initialization = .ready)
    (hdrained : ∀ c, core = some c → c.drained → c.closing)
    (hsound : TaskSound slot core w.store task) (hne : task ≠ .constructing)
    (hask : slot.closing → Task.AboutToAsk task) :
    ({ w with slot, core }.setTask t task).Inv := by
  have hphase₀ : w.slot.initialization = .initializing := I.tasks t _ hold
  have hopen : slot.released = false := hreleased.trans (I.not_released hold)
  have hother : ∀ t' task', t' ≠ t → w.tasks.lookup t' = some task' → task' ≠ .constructing := by
    rintro t' task' hne' hlookup rfl
    exact hne' (I.sole t' t hlookup hold)
  exact { I with
    accounted := hactive.trans (I.accounted.trans (size_insert_of_lookup hold).symm)
    started := by
      refine I.started.trans ?_
      rw [if_neg (by rw [hphase₀]; exact nofun)]
      exact (if_neg hphase.1).symm
    holdsCore := by
      show slot.runtime = (core.isSome && !slot.released)
      rw [hruntime, hopen, Bool.not_false, Bool.and_true]
    holdsStore := by
      show slot.persistence = (w.store.isSome && !slot.released)
      rw [hpersistence, hreleased]
      exact I.holdsStore
    corePhase := hcore
    storePhase := fun h => (hphase.1 h).elim
    released := fun h => nomatch hopen.symm.trans h
    drained := hdrained
    tasks := fun t' task' h => by
      simp only [World.setTask, lookup_insert_eq] at h
      split at h
      · cases h
        exact hsound
      next hne' => exact (I.tasks t' task' h).unfinished (.inr hphase₀) (hother t' task' hne' h)
    sole := fun t₁ t₂ h₁ h₂ => by
      simp only [World.setTask, lookup_insert_eq] at h₁ h₂
      split at h₁
      · exact (hne (some.inj h₁)).elim
      next hne' => exact (hother t₁ _ hne' h₁ rfl).elim
    reaches := fun h _ =>
      .inr ⟨t, task, by simp [World.setTask], hask h⟩
    reported := fun late h => ((I.reported late h).concluded.1 hphase₀).elim
    closeRequested := fun h => hclosing.trans (I.closeRequested h)
    releasedLog := fun h => hreleased.trans (I.releasedLog h) }

theorem conclude (I : Inv w) (hold : w.tasks.lookup t = some .constructing) :
    (w.conclude t construction).Inv := by
  have hphase : w.slot.initialization = .initializing := I.tasks t _ hold
  have hopen := I.not_released hold
  have hnone : w.core = none := by
    rw [← not_isSome_iff_eq_none, I.corePhase, hphase]
    exact nofun
  have hpersistence : w.slot.persistence = w.store.isSome := by
    rw [I.holdsStore, hopen, Bool.not_false, Bool.and_true]
  have hruntime : w.slot.runtime = false := by
    rw [I.holdsCore, hnone]
    rfl
  cases construction with
  | built =>
    simp only [World.conclude]
    split
    next hclose =>
      refine I.concluded hold ⟨nofun, nofun⟩ rfl rfl rfl rfl rfl (by simp) (by simp)
        ⟨?_, nofun, nofun⟩ nofun fun _ => trivial
      rw [← hpersistence]
      rfl
    next hclose =>
      refine I.concluded hold ⟨nofun, nofun⟩ rfl rfl rfl rfl rfl (by simp) (by simp) trivial nofun
        fun h => ?_
      simp [show w.slot.closing = true from h] at hclose
  | failed error =>
    simp only [World.conclude, decide_true, Bool.or_true, if_true]
    refine I.concluded hold ⟨nofun, nofun⟩ rfl rfl rfl rfl ?_ ?_ I.drained ⟨?_, nofun, nofun⟩ nofun
      fun _ => trivial
    · rw [hnone]
      exact hruntime
    · simp [hnone]
    · rw [← hpersistence, hruntime, hnone]
      rfl
  | panicked =>
    simp only [World.conclude]
    split
    next hclose =>
      refine I.concluded hold ⟨nofun, nofun⟩ rfl rfl rfl rfl ?_ ?_ I.drained ⟨?_, nofun, nofun⟩ nofun
        fun _ => trivial
      · rw [hnone]
        exact hruntime
      · simp [hnone]
      · rw [← hpersistence, hruntime, hnone]
        rfl
    next hclose =>
      refine I.concluded hold ⟨nofun, nofun⟩ rfl rfl rfl rfl ?_ ?_ I.drained trivial nofun
        fun h => ?_
      · rw [hnone]
        exact hruntime
      · simp [hnone]
      · simp [show w.slot.closing = true from h] at hclose

/-! ## Closing -/

/-- The core only moves on: it may accept to close, and drains only after it did. -/
theorem advanceCore (I : Inv w) {f : Core → Core}
    (hasked : ∀ c, c.asked → (f c).asked) (hdrained : ∀ c, c.drained → (f c).drained)
    (hclosing : ∀ c, w.core = some c → (f c).drained → (f c).closing) :
    { w with core := w.core.map f }.Inv := by
  have hquiet : Quiet w.slot w.core w.store → Quiet w.slot (w.core.map f) w.store := by
    intro h
    refine ⟨h.closing, h.concluded, fun c hc => ?_, h.storeDrained⟩
    obtain ⟨c₀, hc₀, rfl⟩ := map_eq_some_iff.mp hc
    exact hdrained c₀ (h.coreDrained c₀ hc₀)
  have hsome : (w.core.map f).isSome = w.core.isSome := isSome_map ..
  exact { I with
    holdsCore := by
      show w.slot.runtime = ((w.core.map f).isSome && !w.slot.released)
      rw [hsome]
      exact I.holdsCore
    corePhase := by
      show (w.core.map f).isSome = true ↔ _
      rw [hsome]
      exact I.corePhase
    released := fun h => ⟨(I.released h).1, hquiet (I.released h).2⟩
    drained := fun c hc => by
      obtain ⟨c₀, hc₀, rfl⟩ := map_eq_some_iff.mp hc
      exact hclosing c₀ hc₀
    tasks := fun t' task' h => (I.tasks t' task' h).later ⟨rfl, hsome, rfl, id, hquiet⟩
    reaches := fun hc hp => by
      rcases I.reaches hc hp with h | h
      · refine .inl ⟨fun c hc => ?_, fun hnone => h.storeAsked (map_eq_none_iff.mp hnone)⟩
        obtain ⟨c₀, hc₀, rfl⟩ := map_eq_some_iff.mp hc
        exact hasked c₀ (h.coreAsked c₀ hc₀)
      · exact .inr h
    reported := fun late h => hquiet (I.reported late h) }

theorem advanceStore (I : Inv w) {f : PersistenceOwner → PersistenceOwner}
    (hasked : ∀ s, s.asked → (f s).asked) (hdrained : ∀ s, s.drained → (f s).drained) :
    { w with store := w.store.map f }.Inv := by
  have hquiet : Quiet w.slot w.core w.store → Quiet w.slot w.core (w.store.map f) := by
    intro h
    refine ⟨h.closing, h.concluded, h.coreDrained, fun s hs => ?_⟩
    obtain ⟨s₀, hs₀, rfl⟩ := map_eq_some_iff.mp hs
    exact hdrained s₀ (h.storeDrained s₀ hs₀)
  have hsome : (w.store.map f).isSome = w.store.isSome := isSome_map ..
  exact { I with
    holdsStore := by
      show w.slot.persistence = ((w.store.map f).isSome && !w.slot.released)
      rw [hsome]
      exact I.holdsStore
    storePhase := fun h => by
      show w.store.map f = none
      rw [I.storePhase h]
      rfl
    released := fun h => ⟨(I.released h).1, hquiet (I.released h).2⟩
    tasks := fun t' task' h => (I.tasks t' task' h).later ⟨rfl, rfl, hsome, id, hquiet⟩
    reaches := fun hc hp => by
      rcases I.reaches hc hp with h | h
      · refine .inl ⟨h.coreAsked, fun hnone s hs => ?_⟩
        obtain ⟨s₀, hs₀, rfl⟩ := map_eq_some_iff.mp hs
        exact hasked s₀ (h.storeAsked hnone s₀ hs₀)
      · exact .inr h
    reported := fun late h => hquiet (I.reported late h) }

theorem askClose (I : Inv w) : (w.askClose lease fault).Inv := by
  unfold World.askClose
  split
  · refine I.advanceCore (fun _ _ => rfl) (fun _ h => h) fun c hc h => ?_
    simp [I.drained c hc h]
  · split
    · exact I.advanceStore (fun _ _ => rfl) fun _ h => h
    · exact I

/-- A lease of the whole slot reaches the core, or the storage owner when there is no core. -/
theorem asked_askClose (h : lease = ⟨w.core.isSome, w.store.isSome⟩) :
    Asked (w.askClose lease fault).core (w.askClose lease fault).store := by
  subst h
  unfold World.askClose
  cases hcore : w.core with
  | some c =>
    refine ⟨fun c' hc' => ?_, fun hnone => by simp at hnone⟩
    simp only [isSome_some, if_true, map_some, some.injEq] at hc'
    rw [← hc']
  | none =>
    cases hstore : w.store with
    | none =>
      simp only [isSome_none, Bool.false_eq_true, if_false]
      exact ⟨fun c hc => (nomatch hcore.symm.trans hc), fun _ s hs => (nomatch hstore.symm.trans hs)⟩
    | some s =>
      simp only [isSome_none, Bool.false_eq_true, if_false, isSome_some, if_true]
      refine ⟨fun c hc => (nomatch hc), fun _ s' hs' => ?_⟩
      simp only [map_some, some.injEq] at hs'
      rw [← hs']

theorem askClose_tasks : (w.askClose lease fault).tasks = w.tasks := by
  unfold World.askClose
  split
  · rfl
  · split <;> rfl

/-- A task about to ask does so, and is left with its last section. -/
theorem ask (I : Inv w) (hold : w.tasks.lookup t = some old)
    (hlease : lease = ⟨w.core.isSome, w.store.isSome⟩)
    (hsound : TaskSound (w.askClose lease fault).slot (w.askClose lease fault).core
      (w.askClose lease fault).store task) (hne : task ≠ .constructing) :
    ((w.askClose lease fault).setTask t task).Inv :=
  I.askClose.setTask (by rw [askClose_tasks]; exact hold) hsound hne fun _ => asked_askClose hlease

theorem leaseOf_eq (I : Inv w) (hopen : w.slot.released = false) (h : w.leaseOf = some lease) :
    lease = ⟨w.core.isSome, w.store.isSome⟩ ∧ w.slot.initialization ≠ .reserved := by
  have hruntime : w.slot.runtime = w.core.isSome := by rw [I.holdsCore, hopen, Bool.not_false, Bool.and_true]
  have hpersistence : w.slot.persistence = w.store.isSome := by
    rw [I.holdsStore, hopen, Bool.not_false, Bool.and_true]
  unfold leaseOf at h
  split at h
  next hsome =>
    rw [hruntime, hpersistence] at hsome h
    refine ⟨(some.inj h).symm, fun hreserved => ?_⟩
    have hcore : w.core.isSome = false := by
      rw [← Bool.not_eq_true, I.corePhase, hreserved]
      exact nofun
    rw [hcore, I.storePhase hreserved] at hsome
    exact nomatch hsome
  next => exact nomatch h

/-- The slot of a request to close, before its lease. -/
theorem markClosing (I : Inv w)
    (hreach : w.slot.initialization ≠ .initializing →
      Asked w.core w.store ∨ ∃ t task, w.tasks.lookup t = some task ∧ Task.AboutToAsk task) :
    { w with slot := { w.slot with closing := true } }.Inv := by
  have hquiet : Quiet w.slot w.core w.store →
      Quiet { w.slot with closing := true } w.core w.store := fun h =>
    ⟨rfl, h.concluded, h.coreDrained, h.storeDrained⟩
  exact { I with
    released := fun h => ⟨(I.released h).1, hquiet (I.released h).2⟩
    tasks := fun t' task' h => (I.tasks t' task' h).later ⟨rfl, rfl, rfl, fun _ => rfl, hquiet⟩
    reaches := fun _ => hreach
    reported := fun late h => hquiet (I.reported late h)
    closeRequested := fun _ => rfl }

theorem asked_of_leaseOf_none (I : Inv w) (hopen : w.slot.released = false) (h : w.leaseOf = none) :
    Asked w.core w.store := by
  have hnone : (w.slot.runtime || w.slot.persistence) = false := by
    simpa [leaseOf] using h
  rw [I.holdsCore, I.holdsStore, hopen] at hnone
  simp only [Bool.not_false, Bool.and_true, Bool.or_eq_false_iff, isSome_eq_false_iff,
    isNone_iff_eq_none] at hnone
  rw [hnone.1, hnone.2]
  exact ⟨nofun, fun _ => nofun⟩

theorem requestClose (I : Inv w) (ht : t ∉ w.tasks) (h : w.requestClose t = .ok w') : w'.Inv := by
  simp only [World.requestClose, Except.bind_eq_ok, refuseIf_eq_ok] at h
  obtain ⟨_, hopen, h⟩ := h
  rw [Bool.not_eq_true] at hopen
  split at h
  next hlease =>
    cases h
    refine (I.markClosing fun hphase => .inl (I.asked_of_leaseOf_none hopen ?_)).record trivial nofun
      (fun _ => rfl) nofun nofun nofun
    change (if w.slot.initialization = .initializing then none else w.leaseOf) = none at hlease
    rwa [if_neg hphase] at hlease
  next lease hlease =>
    cases h
    change (if w.slot.initialization = .initializing then none else w.leaseOf) = some lease at hlease
    split at hlease
    next => exact nomatch hlease
    next hphase =>
      have hsound : TaskSound w.slot w.core w.store (.asking lease) :=
        ⟨(I.leaseOf_eq hopen hlease).1, (I.leaseOf_eq hopen hlease).2, hphase⟩
      -- The lease is taken in the section that closes, so the task to ask exists from then on.
      have hclosing := ((I.join ht hopen hsound nofun).markClosing fun _ =>
        .inr ⟨t, .asking lease, by simp [World.join], trivial⟩).record (e := .closeRequested) trivial nofun
          (fun _ => rfl) nofun nofun nofun
      refine hclosing.record ⟨fun hreleased => ?_, nofun⟩ nofun nofun nofun nofun nofun
      exact nomatch hopen.symm.trans (hclosing.releasedLog hreleased)

theorem acquire (I : Inv w) (ht : t ∉ w.tasks) (h : w.acquire t admission = .ok w') : w'.Inv := by
  simp only [World.acquire, Except.bind_eq_ok, refuseIf_eq_ok, okOr_eq_ok] at h
  obtain ⟨_, hopen, _, hadmission, _, hruntime, lease, hlease, heq⟩ := h
  cases heq
  rw [Bool.not_eq_true] at hopen
  have hcore : w.core.isSome = true := by
    rw [Bool.not_eq_false, I.holdsCore, hopen] at hruntime
    simpa using hruntime
  have hsound : TaskSound w.slot w.core w.store (.leased lease) := by
    rw [(I.leaseOf_eq hopen hlease).1]
    exact hcore
  refine (I.join ht hopen hsound (by rintro ⟨⟩)).record ⟨fun hreleased => ?_, fun hadmitted hclose => ?_⟩
    (by rintro ⟨⟩) (by rintro ⟨⟩) (by rintro ⟨⟩) (by rintro _ ⟨⟩) (by rintro ⟨⟩)
  · cases hopen.symm.trans (I.releasedLog hreleased)
  · exact hadmission ⟨hadmitted, I.closeRequested hclose⟩

/-! ## Reports and release -/

theorem quiet_of_reportedClosed (I : Inv w) (h : w.reportedClosed = true) :
    Quiet w.slot w.core w.store := by
  simp only [reportedClosed, Bool.or_eq_true, contains_iff_mem] at h
  rcases h with h | h
  · exact I.reported true h
  · exact I.reported false h

theorem snapshot (I : Inv w) (ht : t ∉ w.tasks) (h : w.snapshot t = .ok w') : w'.Inv := by
  simp only [World.snapshot, Except.bind_eq_ok, refuseIf_eq_ok] at h
  obtain ⟨_, hopen, h⟩ := h
  rw [Bool.not_eq_true] at hopen
  split at h
  next hlease =>
    cases h
    have hnone : w.core = none ∧ w.store = none := by
      have hnone : (w.slot.runtime || w.slot.persistence) = false := by
        simpa [leaseOf] using hlease
      rw [I.holdsCore, I.holdsStore, hopen] at hnone
      simpa using hnone
    refine I.record trivial nofun nofun nofun (fun late heq => ?_) fun heq => ?_
    · obtain ⟨hclosed, -⟩ := Event.reported.inj heq
      simp only [closedAtOnce, Bool.and_eq_true, Bool.or_eq_true, decide_eq_true_eq] at hclosed
      refine ⟨hclosed.1, ?_, ?_, ?_⟩
      · rcases hclosed.2 with h | h <;> simp [h]
      · simp [hnone.1]
      · simp [hnone.2]
    · obtain ⟨hclosed, hlate⟩ := Event.reported.inj heq
      have hquiet := I.quiet_of_reportedClosed hlate
      have hready : w.slot.initialization ≠ .ready := by
        rw [Ne, ← I.corePhase, hnone.1]
        exact nofun
      have hphase := hquiet.concluded
      cases hinit : w.slot.initialization <;>
        simp [closedAtOnce, hquiet.closing, hinit] at hclosed hready hphase
  next lease hlease =>
    cases h
    obtain ⟨hflags, hreserved⟩ := I.leaseOf_eq hopen hlease
    have hsound : TaskSound w.slot w.core w.store
        (.probing lease w.polls w.closedAtOnce w.reportedClosed) := by
      refine ⟨fun hpoll => ?_, fun hpoll => ?_, fun hlate => ?_⟩
      · simp only [polls, Bool.and_eq_true, Bool.or_eq_true, decide_eq_true_eq] at hpoll
        exact ⟨hflags, hpoll⟩
      · cases hinit : w.slot.initialization <;>
          simp_all [polls, closedAtOnce]
      · have hquiet := I.quiet_of_reportedClosed hlate
        refine ⟨?_, hquiet⟩
        have hphase := hquiet.concluded
        cases hinit : w.slot.initialization <;>
          simp_all [polls, hquiet.closing]
    refine (I.join ht hopen hsound nofun).record ⟨fun hreleased => ?_, nofun⟩ nofun nofun nofun nofun
      nofun
    exact nomatch hopen.symm.trans (I.releasedLog hreleased)

theorem pollStore (I : Inv w) {fault : Option PollFault} : (w.pollStore lease fault).1.Inv := by
  unfold World.pollStore
  split
  · exact I.advanceStore (fun _ _ => rfl) fun _ h => h
  · exact I

theorem pollClosed (I : Inv w) {fault : Option PollFault} : (w.pollClosed lease fault).1.Inv := by
  unfold World.pollClosed
  split
  · split
    · exact I
    · split
      · exact I.pollStore
      · exact I
  · exact I.pollStore

theorem pollStore_frame (w : World) (lease : RuntimeLease) (fault : Option PollFault) :
    (w.pollStore lease fault).1.tasks = w.tasks ∧ (w.pollStore lease fault).1.slot = w.slot ∧
      (w.pollStore lease fault).1.core = w.core := by
  unfold World.pollStore
  split <;> exact ⟨rfl, rfl, rfl⟩

theorem pollClosed_frame (w : World) (lease : RuntimeLease) (fault : Option PollFault) :
    (w.pollClosed lease fault).1.tasks = w.tasks ∧ (w.pollClosed lease fault).1.slot = w.slot ∧
      (w.pollClosed lease fault).1.core = w.core := by
  unfold World.pollClosed
  split
  · split
    · exact ⟨rfl, rfl, rfl⟩
    · split
      · exact pollStore_frame w lease fault
      · exact ⟨rfl, rfl, rfl⟩
  · exact pollStore_frame w lease fault

theorem report_slot (w : World) (t : ℕ) (lease : RuntimeLease) (poll first late : Bool)
    (fault : Option PollFault) : (w.report t lease poll first late fault).slot = w.slot := by
  have hpolled : (if poll then w.pollClosed lease fault else (w, .ok first)).1.slot = w.slot := by
    split
    · exact (pollClosed_frame w lease fault).2.1
    · rfl
  unfold World.report
  dsimp only
  split <;> exact hpolled

/-- A release leaves a closing slot closing, whatever it returns. -/
theorem release_closing (w : World) (fault : Option PollFault) :
    (w.release fault).1.slot.closing = w.slot.closing := by
  have hpolled := congrArg RuntimeState.closing
    (pollClosed_frame w ⟨w.slot.runtime, w.slot.persistence⟩ fault).2.1
  unfold World.release
  split
  · rfl
  · dsimp only
    split <;> exact hpolled

/-- A poll that finds nothing left went on from a drained core to the storage worker. -/
theorem pollClosed_eq {fault : Option PollFault} (h : (w.pollClosed lease fault).2 = .ok true) :
    w.pollClosed lease fault = w.pollStore lease fault ∧
      (lease.runtime → w.core.any fun c => c.closing && c.drained) := by
  unfold World.pollClosed at h ⊢
  split at h
  next hruntime =>
    cases fault with
    | some fault => cases fault with
      | core error => cases h
      | store error =>
        dsimp only at h ⊢
        split at h
        next hdrained => exact ⟨by rw [if_pos hruntime, if_pos hdrained], fun _ => hdrained⟩
        next => cases h
    | none =>
      dsimp only at h ⊢
      split at h
      next hdrained => exact ⟨by rw [if_pos hruntime, if_pos hdrained], fun _ => hdrained⟩
      next => cases h
  next hruntime => exact ⟨if_neg hruntime, fun h => (hruntime h).elim⟩

/-- A poll of the whole slot that finds nothing left leaves only drained workers. -/
theorem pollClosed_true (hflags : lease = ⟨w.core.isSome, w.store.isSome⟩) {fault : Option PollFault}
    (h : (w.pollClosed lease fault).2 = .ok true) :
    (∀ c, (w.pollClosed lease fault).1.core = some c → c.drained) ∧
      ∀ s, (w.pollClosed lease fault).1.store = some s → s.drained := by
  obtain ⟨heq, hcore⟩ := pollClosed_eq h
  subst hflags
  refine ⟨fun c hc => ?_, fun s hs => ?_⟩
  · rw [(pollClosed_frame w _ fault).2.2] at hc
    simp only [hc, isSome_some, any_some, forall_const] at hcore
    exact (Bool.and_eq_true_iff.mp hcore).2
  · rw [heq] at h hs
    unfold World.pollStore at h hs
    cases hw : w.store with
    | none => simp [hw] at hs
    | some s₀ =>
      simp only [hw, isSome_some, if_true, map_some, some.injEq, any_some] at h hs
      subst hs
      split at h
      · cases h
      · exact Except.ok.inj h

/-- A poll without a fault finds nothing left when every worker has drained. -/
theorem pollClosed_of_drained (I : Inv w) (hflags : lease = ⟨w.core.isSome, w.store.isSome⟩)
    (hcore : ∀ c, w.core = some c → c.drained) (hstore : ∀ s, w.store = some s → s.drained) :
    (w.pollClosed lease none).2 = .ok true := by
  have hpolled : (w.pollStore lease none).2 = .ok true := by
    subst hflags
    unfold World.pollStore
    cases hw : w.store with
    | none => rfl
    | some s => simp [hstore s hw]
  unfold World.pollClosed
  split
  next hruntime =>
    subst hflags
    obtain ⟨c, hc⟩ := isSome_iff_exists.mp hruntime
    have hdrained := hcore c hc
    simpa [hc, hdrained, I.drained c hc hdrained] using hpolled
  next => exact hpolled

theorem report (I : Inv w) {poll first late : Bool} {fault : Option PollFault}
    (hold : w.tasks.lookup t = some (.probing lease poll first late)) :
    (w.report t lease poll first late fault).Inv := by
  obtain ⟨hpoll, hfirst, hlate⟩ := I.tasks t _ hold
  unfold World.report
  split
  next hp =>
    obtain ⟨hflags, hclosing, hphase⟩ := hpoll hp
    obtain ⟨htasks, hslot, -⟩ := pollClosed_frame w lease fault
    rw [← htasks] at hold
    have hset : ((w.pollClosed lease fault).1.setTask t .dropping).Inv :=
      I.pollClosed.setTask hold trivial nofun fun h => h.elim
    dsimp only
    split
    next closed hclosed =>
      refine hset.record trivial nofun nofun nofun (fun late' heq => ?_) fun heq => ?_
      · -- the poll asks the storage worker to close, which keeps what has drained
        obtain ⟨rfl, -⟩ := Event.reported.inj heq
        obtain ⟨hdc, hds⟩ := pollClosed_true hflags hclosed
        refine ⟨hslot ▸ hclosing, ?_, hdc, hds⟩
        show (w.pollClosed lease none).1.slot.initialization ≠ _ ∧
          (w.pollClosed lease none).1.slot.initialization ≠ _
        rw [hslot]
        rcases hphase with h | h <;> simp [h]
      · obtain ⟨rfl, hlate'⟩ := Event.reported.inj heq
        obtain ⟨-, hquiet⟩ := hlate hlate'
        exact nomatch hclosed.symm.trans
          (I.pollClosed_of_drained hflags hquiet.coreDrained hquiet.storeDrained)
    next => exact hset
  next hp =>
    rw [Bool.not_eq_true] at hp
    have hset : (w.setTask t .dropping).Inv := I.setTask hold trivial nofun fun h => h.elim
    dsimp only
    split
    next closed hclosed =>
      cases hclosed
      refine hset.record trivial nofun nofun nofun (fun late' heq => ?_) fun heq => ?_
      · obtain ⟨hclosed, -⟩ := Event.reported.inj heq
        exact nomatch (hfirst hp).symm.trans hclosed
      · obtain ⟨-, hlate'⟩ := Event.reported.inj heq
        exact nomatch hp.symm.trans (hlate hlate').1
    next => exact hset

/-- A slot that nobody uses and whose workers have drained is given up. -/
theorem retire (I : Inv w) (hsize : w.tasks.size = 0) (hquiet : Quiet w.slot w.core w.store) :
    ({ w with slot := { w.slot with
        released := true, runtime := false, persistence := false } }.record .released).Inv := by
  have hslot : Quiet { w.slot with released := true, runtime := false, persistence := false } w.core
      w.store := ⟨hquiet.closing, hquiet.concluded, hquiet.coreDrained, hquiet.storeDrained⟩
  have hnone : ∀ t task, w.tasks.lookup t ≠ some task := by
    intro t task hlookup
    have := size_of_lookup hlookup
    omega
  have hreleased : Inv { w with
      slot := { w.slot with released := true, runtime := false, persistence := false } } := { I with
    holdsCore := by simp
    holdsStore := by simp
    released := fun _ => ⟨hsize, hslot⟩
    tasks := fun t task h => (hnone t task h).elim
    reported := fun _ _ => hslot
    releasedLog := fun _ => rfl }
  exact hreleased.record trivial nofun nofun (fun _ => rfl) nofun nofun

theorem release (I : Inv w) (fault : Option PollFault) : (w.release fault).1.Inv := by
  unfold World.release
  split
  · exact I
  next hreleasable =>
    dsimp only
    split
    · exact I.pollClosed
    · exact I.pollClosed
    next hpoll =>
      simp only [releasable, Except.bind_eq_ok, refuseIf_eq_ok, not_or, not_not] at hreleasable
      obtain ⟨_, hopen, _, ⟨hclosing, hactive, hphase⟩, hfault⟩ := hreleasable
      rw [Bool.not_eq_true] at hopen
      rw [Bool.not_eq_false] at hclosing
      have hflags : RuntimeLease.mk w.slot.runtime w.slot.persistence =
          ⟨w.core.isSome, w.store.isSome⟩ := by
        rw [I.holdsCore, I.holdsStore, hopen, Bool.not_false, Bool.and_true, Bool.and_true]
      obtain ⟨hdc, hds⟩ := pollClosed_true hflags hpoll
      obtain ⟨htasks, hslot, -⟩ := pollClosed_frame w ⟨w.slot.runtime, w.slot.persistence⟩ fault
      refine I.pollClosed.retire ?_ ⟨?_, ?_, hdc, hds⟩
      · rw [htasks, ← I.accounted, hactive]
      · rw [hslot, hclosing]
      · rw [hslot]
        exact ⟨hphase, hfault⟩

theorem setError (I : Inv w) {error : Option EmbeddedError} :
    { w with slot := { w.slot with error } }.Inv := by
  have hquiet : Quiet w.slot w.core w.store → Quiet { w.slot with error } w.core w.store := fun h =>
    ⟨h.closing, h.concluded, h.coreDrained, h.storeDrained⟩
  exact { I with
    released := fun h => ⟨(I.released h).1, hquiet (I.released h).2⟩
    tasks := fun t' task' h => (I.tasks t' task' h).later ⟨rfl, rfl, rfl, id, hquiet⟩
    reported := fun late h => hquiet (I.reported late h) }

/-! ## Steps and runs -/

theorem start (I : Inv w) (hcall : ∀ w₁, call = .ok w₁ → t ∉ w.tasks → w₁.Inv)
    (h : w.start t call = some w') : w'.Inv := by
  unfold World.start at h
  split at h
  next => exact nomatch h
  next ht =>
    cases h
    cases hc : call with
    | error e => exact I
    | ok w₁ => exact hcall w₁ hc ht

/-- One section of any call preserves the invariant. -/
theorem step (I : Inv w) (h : w.step a = some w') : w'.Inv := by
  cases a with
  | initializeWith t => exact I.start (fun _ hc ht => I.initializeWith ht hc) h
  | publishStore t =>
    simp only [World.step] at h
    split at h
    next hold =>
      split at h
      · cases h
      · cases h
        exact I.publishStore hold
    · cases h
  | conclude t construction =>
    simp only [World.step] at h
    split at h
    next hold =>
      cases h
      exact I.conclude hold
    · cases h
  | askConcluded t fault =>
    simp only [World.step] at h
    split at h
    next lease hold =>
      cases h
      exact I.ask hold (I.tasks t _ hold).1 trivial nofun
    · cases h
  | settle t =>
    simp only [World.step] at h
    split at h
    next failure hold =>
      have herror : Inv { w with slot := { w.slot with error := failure.or w.slot.error } } :=
        I.setError
      exact herror.leave hold (fun h => h.elim) h
    · cases h
  | acquire t admission => exact I.start (fun _ hc ht => I.acquire ht hc) h
  | dropLease t =>
    simp only [World.step] at h
    split at h
    next lease hold => exact I.leave hold (fun h => h.elim) h
    · cases h
  | requestClose t => exact I.start (fun _ hc ht => I.requestClose ht hc) h
  | askClose t fault =>
    simp only [World.step] at h
    split at h
    next lease hold =>
      cases h
      exact I.ask hold (I.tasks t _ hold).1 trivial nofun
    · cases h
  | snapshot t => exact I.start (fun _ hc ht => I.snapshot ht hc) h
  | poll t fault =>
    simp only [World.step] at h
    split at h
    next hold =>
      cases h
      exact I.report hold
    · cases h
  | leave t =>
    simp only [World.step] at h
    split at h
    next hold => exact I.leave hold (fun h => h.elim) h
    · cases h
  | release fault =>
    cases h
    exact I.release fault
  | drainCore =>
    simp only [World.step] at h
    split at h
    next c hcore =>
      split at h
      next hclosing =>
        cases h
        have hmap : w.core.map (fun c => { c with drained := true }) = some { c with drained := true } := by
          rw [hcore]
          rfl
        rw [← hmap]
        refine I.advanceCore (fun _ h => h) (fun _ _ => rfl) fun c' hc' _ => ?_
        cases hcore.symm.trans hc'
        exact hclosing
      · cases h
    · cases h
  | drainStore =>
    simp only [World.step] at h
    split at h
    next s hstore =>
      split at h
      next =>
        cases h
        have hmap : w.store.map (fun s => { s with drained := true }) = some { s with drained := true } := by
          rw [hstore]
          rfl
        rw [← hmap]
        exact I.advanceStore (fun _ h => h) fun _ _ => rfl
      · cases h
    · cases h

theorem run (I : Inv w) (h : w.run actions = some w') : w'.Inv := by
  induction actions generalizing w with
  | nil =>
    cases h
    exact I
  | cons a actions ih =>
    obtain ⟨mid, hstep, hrest⟩ := bind_eq_some_iff.mp h
    exact ih (I.step hstep) hrest

end Inv

/-- The life of a slot. The calls that use it are counted; a close reaches what was constructed, or a
call that is about to ask it is under way; a slot that was ever reported closed is quiet, and a later
report says so again; a released slot is quiet and nobody uses it; every lease that a caller holds has
a runtime. -/
structure Lifecycle (w : World) : Prop where
  constructions : w.log.count .constructionStarted ≤ 1
  active : w.slot.active = w.tasks.size
  reaches : w.slot.closing → w.slot.initialization ≠ .initializing →
    (∀ t task, w.tasks.lookup t = some task → ¬ Task.AboutToAsk task) → Asked w.core w.store
  admission : ∀ before after, w.log = before ++ .leased true :: after → .closeRequested ∉ before
  reported : ∀ late, .reported true late ∈ w.log → Quiet w.slot w.core w.store
  neverBack : .reported false true ∉ w.log
  released : w.slot.released → Quiet w.slot w.core w.store ∧ w.tasks.size = 0
  final : ∀ before admission after, w.log = before ++ .leased admission :: after → .released ∉ before
  leases : ∀ t lease, w.tasks.lookup t = some (.leased lease) → lease.runtime = true

/-- Any interleaving of calls on a new slot keeps to its life. -/
theorem lifecycle {actions : List Action} (h : new.run actions = some w) : w.Lifecycle := by
  have I := Inv.new.run h
  exact { I with
    constructions := by
      rw [I.started]
      split <;> omega
    active := I.accounted
    reaches := fun hclosing hphase hnone => by
      rcases I.reaches hclosing hphase with hasked | ⟨t, task, hlookup, hask⟩
      · exact hasked
      · exact (hnone t task hlookup hask).elim
    admission := fun before after hlog => (I.legal before _ after hlog).2 rfl
    released := fun hreleased => (I.released hreleased).symm
    final := fun before admission after hlog => (I.legal before _ after hlog).1
    leases := fun t lease hlookup => I.tasks t _ hlookup }

/-! ## A lease that outlives the report -/

/-- A caller takes a lease, another one closes the slot; the core drains while the first lease lives. -/
def overtaken : List Action :=
  [.initializeWith 0, .conclude 0 .built, .settle 0, .acquire 1 true, .requestClose 2, .askClose 2 none,
    .leave 2, .drainCore, .snapshot 3]

/-- The lease is dropped and the slot released. -/
def retired : List Action := overtaken ++ [.poll 3 none, .leave 3, .dropLease 1, .release none]

theorem retired_lifecycle : ∃ w, new.run retired = some w ∧ w.slot.released = true ∧ w.Lifecycle := by
  obtain ⟨w, hrun, hreleased⟩ := map_eq_some_iff.mp
    (show (new.run retired).map (fun w => w.slot.released) = some true by decide +kernel)
  exact ⟨w, hrun, hreleased, lifecycle hrun⟩

/-- A slot is reported closed while a lease is live. -/
theorem closed_under_lease :
    ¬ ∀ actions a w w', new.run actions = some w → w.step a = some w' →
      (∃ late, w'.log = w.log ++ [.reported true late]) → ∀ t lease, w'.tasks.lookup t ≠ some (.leased lease) := by
  intro h
  obtain ⟨w, hrun, hw⟩ := map_eq_some_iff.mp
    (show (new.run overtaken).map (fun w => ((w.step (.poll 3 none)).map fun w' =>
      (decide (w'.log = w.log ++ [.reported true false]), w'.tasks.lookup 1))) =
        some (some (true, some (.leased ⟨true, false⟩))) by decide +kernel)
  obtain ⟨w', hstep, hw'⟩ := map_eq_some_iff.mp hw
  obtain ⟨hlog, hlease⟩ := Prod.mk.inj hw'
  exact h overtaken _ w w' hrun hstep ⟨false, of_decide_eq_true hlog⟩ 1 _ hlease

end LuaSkills.Ffi.World
