import LuaSkills.VmPool.Pool

/-!
# Accounts of the VM pool

`Books` says which VMs `total_count` counts and who has each of them. `Awake` is about notifications: as
long as somebody sleeps, every VM that lies idle and every slot that is free has a caller of `acquire` of its
own that is about to look at the pool. A step that makes one more available notifies one sleeper, and a step
that takes one away is a round of a caller that counted.
-/

namespace LuaSkills.VmPool

open AList List Option Nat

/-! ## Reaping -/

section
variable {config : LuaVmPoolConfig} {now : Instant} {s s' : LuaVmPoolState} {retired : List LuaVm}
  {fuel index : ℕ}

/-- What reaping may do: idle VMs go, are counted out, and not below the minimum. -/
structure Reaps (config : LuaVmPoolConfig) (s s' : LuaVmPoolState) (retired : List LuaVm) : Prop where
  perm : s.available.Perm (retired ++ s'.available)
  total : s.totalCount = s'.totalCount + retired.length
  minimum : min config.minSize s.totalCount ≤ s'.totalCount

theorem Reaps.nothing : Reaps config s s [] :=
  ⟨.refl _, rfl, min_le_right ..⟩

variable (config now) in
theorem reapFrom_reaps (fuel index : ℕ) (s : LuaVmPoolState) (retired : List LuaVm) :
    ∃ more, (reapFrom config now fuel index s retired).2 = retired ++ more ∧
      Reaps config s (reapFrom config now fuel index s retired).1 more := by
  induction fuel generalizing index s retired with
  | zero => exact ⟨[], (append_nil _).symm, .nothing⟩
  | succ fuel ih =>
    unfold reapFrom
    split
    · exact ⟨[], (append_nil _).symm, .nothing⟩
    next vm hvm =>
      split
      · next hmin =>
        split
        · obtain ⟨more, hmore, R⟩ := ih index ⟨s.available.swapRemove index, s.totalCount - 1⟩
            (retired ++ [vm])
          refine ⟨vm :: more, by rw [hmore, append_assoc, singleton_append], ?_, ?_, ?_⟩
          · exact (perm_swapRemove hvm).trans (R.perm.cons vm)
          · have := R.total
            rw [length_cons]
            dsimp only at this
            omega
          · have := R.minimum
            dsimp only at this
            omega
        · exact ih (index + 1) s retired
      · exact ⟨[], (append_nil _).symm, .nothing⟩

theorem reapIdleLocked_reaps (config : LuaVmPoolConfig) (now : Instant) (s : LuaVmPoolState) :
    Reaps config s (reapIdleLocked config now s).1 (reapIdleLocked config now s).2 := by
  unfold reapIdleLocked
  split
  · exact .nothing
  · obtain ⟨more, hmore, R⟩ := reapFrom_reaps config now s.available.length 0 s []
    rw [nil_append] at hmore
    rwa [hmore]

end

/-! ## The invariant -/

def AcquirePhase.creates : AcquirePhase → Bool
  | .creating => true
  | _ => false

def AcquirePhase.looks : AcquirePhase → Bool
  | .locking | .notified => true
  | _ => false

namespace AcquirePhase

@[simp] theorem creates_eq : creating.creates = true ∧ locking.creates = false ∧
    waiting.creates = false ∧ notified.creates = false :=
  ⟨rfl, rfl, rfl, rfl⟩

@[simp] theorem looks_eq : locking.looks = true ∧ notified.looks = true ∧ waiting.looks = false ∧
    creating.looks = false :=
  ⟨rfl, rfl, rfl, rfl⟩

theorem of_looks {phase : AcquirePhase} (h : phase.looks = true) :
    phase.creates = false ∧ phase ≠ .waiting := by
  revert h
  cases phase <;> decide

/-- A call that does not sleep looks or creates. -/
theorem looks_or_creates {phase : AcquirePhase} (h : phase ≠ .waiting) :
    (if phase.looks then 1 else 0) + (if phase.creates then 1 else 0) = 1 := by
  revert h
  cases phase <;> decide

end AcquirePhase

def LuaVmLease.holds (id : ℕ) (lease : LuaVmLease) : Bool := lease.vm.any (·.id = id)

theorem LuaVmLease.holds_eq (id : ℕ) (vm : LuaVm) :
    (⟨some vm⟩ : LuaVmLease).holds id = decide (vm.id = id) ∧ (⟨none⟩ : LuaVmLease).holds id = false :=
  ⟨rfl, rfl⟩

namespace World
variable {w w' : World} {t l n : ℕ} {phase phase' : AcquirePhase} {vm : LuaVm} {woken : Option ℕ}
  {now used : Instant}

def homes (w : World) (id : ℕ) : ℕ :=
  w.state.available.countP (·.id = id) + w.leases.countBy (·.holds id)

/-- What is there for somebody to take: idle VMs and free slots. -/
def capacity (w : World) : ℕ := w.state.available.length + (w.config.maxSize - w.state.totalCount)

structure Books (w : World) : Prop where
  total : w.state.totalCount =
    w.state.available.length + w.leases.countBy (·.vm.isSome) + w.calls.countBy (·.creates)
  bounded : w.state.totalCount ≤ w.config.maxSize
  once : ∀ id, w.homes id ≤ if id < w.nextVm then 1 else 0
  lease : ∀ l ∈ w.leases, l < w.nextLease
  solvent : w.saturated = false

/-- While somebody sleeps, all but `n` of what is there has a caller that is about to look. -/
def Awake (w : World) (n : ℕ) : Prop :=
  0 < w.calls.countBy (· = .waiting) → w.capacity ≤ w.calls.countBy (·.looks) + n

structure Inv (w : World) : Prop where
  books : w.Books
  awake : w.Awake 0

/-! ## Steps -/

/-- A notification covers one VM or slot that nobody was about to look at. -/
theorem Books.notifyOne (B : w.Books) (A : w.Awake 1) (h : w.notifyOne woken = some w') : w'.Inv := by
  unfold World.notifyOne at h
  split at h
  · next t =>
    split at h
    · next ht =>
      cases h
      refine ⟨{ B with total := B.total.trans ?_ }, fun hsleep => ?_⟩
      · have := countBy_insert_of_lookup (p := (·.creates)) (w := .notified) ht
        exact congrArg _ this.symm
      · have := A (countBy_pos_of_lookup ht (decide_eq_true rfl))
        have hlooks := countBy_insert_of_lookup (p := (·.looks)) (w := .notified) ht
        exact this.trans_eq hlooks.symm
    · cases h
  · split at h
    · next hnone =>
      cases h
      exact ⟨B, fun hsleep => absurd hnone hsleep.ne'⟩
    · cases h

theorem Books.reap (B : w.Books) (R : Reaps w.config w.state s retired) : Books { w with state := s } := by
  have hlength := R.perm.length_eq
  rw [length_append] at hlength
  have htotal := R.total
  refine { B with total := ?_, bounded := ?_, once := fun id => le_trans ?_ (B.once id) }
  · have := B.total
    dsimp only
    omega
  · exact le_trans (by dsimp only; omega) B.bounded
  · refine Nat.add_le_add_right ?_ _
    rw [R.perm.countP_eq, countP_append]
    exact Nat.le_add_left ..

theorem Books.capacity_reap (B : w.Books) (R : Reaps w.config w.state s retired) :
    capacity { w with state := s } = w.capacity := by
  have hlength := R.perm.length_eq
  rw [length_append] at hlength
  have := R.total
  have := B.bounded
  dsimp only [capacity]
  omega

/-- A call that was about to look at the pool goes on; it sleeps only where there is nothing to take. -/
theorem Inv.look (H : w.Inv) (ht : w.calls.lookup t = some phase) (hlooks : phase.looks = true)
    (havailable : s.available = w.state.available)
    (htotal : s.totalCount = w.state.totalCount + if phase'.creates then 1 else 0)
    (hbounded : s.totalCount ≤ w.config.maxSize) (hcapacity : phase' = .waiting → w.capacity = 0) :
    Inv { w with state := s, calls := w.calls.insert t phase' } := by
  have hcreates := countBy_insert_of_lookup (p := (·.creates)) (w := phase') ht
  have hlook := countBy_insert_of_lookup (p := (·.looks)) (w := phase') ht
  have hsleeps := countBy_insert_of_lookup (p := (· = .waiting)) (w := phase') ht
  have hphase := AcquirePhase.of_looks hlooks
  simp only [hphase.1, hphase.2, hlooks, decide_false, Bool.false_eq_true, if_false, if_true, add_zero]
    at hcreates hlook hsleeps
  refine ⟨{ H.books with total := ?_, bounded := hbounded, once := fun id => ?_ }, fun hsleep => ?_⟩
  · have := H.books.total
    rw [htotal, havailable]
    dsimp only at this ⊢
    omega
  · exact (Nat.add_le_add_right (le_of_eq (by rw [havailable])) _).trans (H.books.once id)
  · have hcap : capacity { w with state := s, calls := w.calls.insert t phase' } +
        (if phase'.creates then 1 else 0) = w.capacity := by
      dsimp only [capacity]
      rw [havailable]
      omega
    dsimp only at hsleep ⊢
    by_cases hwait : phase' = .waiting
    · rw [hcapacity hwait] at hcap
      omega
    · rw [decide_eq_false hwait, if_neg Bool.false_ne_true, add_zero] at hsleeps
      have := H.awake (hsleep.trans_eq hsleeps)
      have := AcquirePhase.looks_or_creates hwait
      omega

/-- The call takes the VM that was used last. -/
theorem Inv.pop (H : w.Inv) (ht : w.calls.lookup t = some phase) (hlooks : phase.looks = true)
    (hlast : w.state.available.getLast? = some vm) :
    Inv (lend { w with state := { w.state with available := w.state.available.dropLast } } t
      { vm with lastUsedAt := used }) := by
  have hsplit := (dropLast_append_getLast? vm hlast).symm
  have hlength := congrArg length hsplit
  rw [length_append, length_singleton] at hlength
  have hnew : w.nextLease ∉ w.leases := fun h => lt_irrefl _ (H.books.lease _ h)
  have hphase := AcquirePhase.of_looks hlooks
  have hcreates := countBy_of_lookup (p := (·.creates)) ht
  have hlook := countBy_of_lookup (p := (·.looks)) ht
  have hsleeps := countBy_of_lookup (p := (· = .waiting)) ht
  simp only [hphase.1, hphase.2, hlooks, decide_false, Bool.false_eq_true, if_false, if_true, add_zero]
    at hcreates hlook hsleeps
  refine ⟨⟨?_, H.books.bounded, fun id => ?_, fun l hl => ?_, H.books.solvent⟩, fun hsleep => ?_⟩
  · have := H.books.total
    dsimp only [lend]
    rw [countBy_insert_of_notMem hnew]
    simp only [isSome_some, if_true]
    omega
  · refine le_trans (le_of_eq ?_) (H.books.once id)
    dsimp only [homes, lend]
    rw [countBy_insert_of_notMem hnew]
    conv_rhs => rw [hsplit, countP_append, countP_singleton]
    rw [(LuaVmLease.holds_eq ..).1]
    dsimp only
    omega
  · rcases (mem_insert _).1 hl with rfl | hl
    · exact lt_succ_self _
    · exact lt_succ_of_lt (H.books.lease l hl)
  · have := H.awake (by rw [hsleeps]; exact hsleep)
    dsimp only [capacity, lend] at this ⊢
    omega

/-- A built VM goes into a lease of its own. -/
theorem Inv.created (H : w.Inv) (ht : w.calls.lookup t = some .creating) :
    Inv (lend { w with nextVm := w.nextVm + 1 } t ⟨w.nextVm, used⟩) := by
  have hnew : w.nextLease ∉ w.leases := fun h => lt_irrefl _ (H.books.lease _ h)
  have hcreates := countBy_of_lookup (p := (·.creates)) ht
  have hlook := countBy_of_lookup (p := (·.looks)) ht
  have hsleeps := countBy_of_lookup (p := (· = .waiting)) ht
  simp at hcreates hlook hsleeps
  refine ⟨⟨?_, H.books.bounded, fun id => ?_, fun l hl => ?_, H.books.solvent⟩, fun hsleep => ?_⟩
  · have := H.books.total
    dsimp only [lend]
    rw [countBy_insert_of_notMem hnew]
    simp only [isSome_some, if_true]
    omega
  · have hhomes : homes (lend { w with nextVm := w.nextVm + 1 } t ⟨w.nextVm, used⟩) id =
        w.homes id + if w.nextVm = id then 1 else 0 := by
      dsimp only [homes, lend]
      rw [countBy_insert_of_notMem hnew, (LuaVmLease.holds_eq ..).1, add_assoc]
      simp only [decide_eq_true_eq]
    have honce := H.books.once id
    rw [hhomes]
    change _ ≤ if id < w.nextVm + 1 then 1 else 0
    split_ifs at honce ⊢ <;> omega
  · rcases (mem_insert _).1 hl with rfl | hl
    · exact lt_succ_self _
    · exact lt_succ_of_lt (H.books.lease l hl)
  · have := H.awake (by rw [hsleeps]; exact hsleep)
    rw [hlook] at this
    exact this

/-- A call that built nothing counts its slot out. -/
theorem Books.failed (B : w.Books) (A : w.Awake 0) (ht : w.calls.lookup t = some .creating)
    (error : String) :
    let w' : World := { w.countOut with
      calls := w.calls.erase t
      returned := w.returned ++ [(t, .error error)] }
    w'.Books ∧ w'.Awake 1 := by
  have hcreates := countBy_of_lookup (p := (·.creates)) ht
  have hlook := countBy_of_lookup (p := (·.looks)) ht
  have hsleeps := countBy_of_lookup (p := (· = .waiting)) ht
  simp at hcreates hlook hsleeps
  have htotal := B.total
  refine ⟨⟨?_, ?_, B.once, B.lease, ?_⟩, fun hsleep => ?_⟩
  · dsimp only [countOut]
    omega
  · exact (sub_le _ _).trans B.bounded
  · simp only [countOut, B.solvent, Bool.false_or, decide_eq_false_iff_not]
    omega
  · have hcap := A (by rw [hsleeps]; exact hsleep)
    have hbounded := B.bounded
    dsimp only [capacity, countOut] at hcap ⊢
    omega

/-- A leased VM that comes back is there for somebody to take. -/
theorem Inv.comeBack (H : w.Inv) (hl : w.leases.lookup l = some ⟨some vm⟩) (used : Instant) :
    let w' : World := { w with
      leases := w.leases.erase l
      state := { w.state with available := w.state.available ++ [{ vm with lastUsedAt := used }] } }
    w'.Books ∧ w'.Awake 1 := by
  have hleased := countBy_of_lookup (p := (·.vm.isSome)) hl
  rw [isSome_some, if_pos rfl] at hleased
  refine ⟨{ H.books with total := ?_, once := fun id => ?_, lease := fun l hl => ?_ }, fun hsleep => ?_⟩
  · have := H.books.total
    dsimp only
    rw [length_append, length_singleton]
    omega
  · refine le_trans (le_of_eq ?_) (H.books.once id)
    dsimp only [homes]
    rw [countBy_of_lookup (p := (·.holds id)) hl, countP_append, countP_singleton,
      (LuaVmLease.holds_eq ..).1]
    dsimp only
    omega
  · exact H.books.lease l (mem_erase.1 hl).2
  · have := H.awake hsleep
    dsimp only [capacity] at this ⊢
    rw [length_append, length_singleton]
    omega

theorem Inv.discard (H : w.Inv) (hl : w.leases.lookup l = some ⟨some vm⟩) :
    let w' : World := { w.countOut with leases := w.leases.insert l ⟨none⟩ }
    w'.Books ∧ w'.Awake 1 := by
  have hleased := countBy_insert_of_lookup (p := (·.vm.isSome)) (w := ⟨none⟩) hl
  rw [isSome_some, isSome_none, if_pos rfl, if_neg Bool.false_ne_true] at hleased
  have htotal := H.books.total
  refine ⟨⟨?_, (sub_le _ _).trans H.books.bounded, fun id => ?_, fun l' hl' => ?_, ?_⟩, fun hsleep => ?_⟩
  · dsimp only [countOut]
    omega
  · refine le_trans (Nat.add_le_add_left ?_ _) (H.books.once id)
    have := countBy_insert_of_lookup (p := (·.holds id)) (w := ⟨none⟩) hl
    rw [(LuaVmLease.holds_eq id vm).2, if_neg Bool.false_ne_true] at this
    exact (le_add_right ..).trans this.le
  · rcases (mem_insert _).1 hl' with rfl | hl'
    · exact H.books.lease _ (mem_of_lookup hl)
    · exact H.books.lease l' hl'
  · simp only [countOut, H.books.solvent, Bool.false_or, decide_eq_false_iff_not]
    omega
  · have := H.awake hsleep
    have := H.books.bounded
    dsimp only [capacity, countOut] at *
    omega

/-- Dropping a discarded lease does nothing to the pool. -/
theorem Inv.forget (H : w.Inv) (hl : w.leases.lookup l = some ⟨none⟩) :
    Inv { w with leases := w.leases.erase l } := by
  have hleased := countBy_of_lookup (p := (·.vm.isSome)) hl
  refine ⟨{ H.books with total := ?_, once := fun id => ?_, lease := fun l hl => ?_ }, H.awake⟩
  · exact H.books.total.trans (by rw [hleased]; rfl)
  · exact le_trans (Nat.add_le_add_left countBy_erase_le _) (H.books.once id)
  · exact H.books.lease l (mem_erase.1 hl).2

theorem Inv.reap (H : w.Inv) (now : Instant) :
    Inv { w with state := (reapIdleLocked w.config now w.state).1 } :=
  have R := reapIdleLocked_reaps w.config now w.state
  ⟨H.books.reap R, fun hsleep => (H.books.capacity_reap R).trans_le (H.awake hsleep)⟩

theorem Inv.acquireRound (H : w.Inv) (ht : w.calls.lookup t = some phase) (hlooks : phase.looks = true) :
    Inv (w.acquireRound t now used) := by
  have H' := H.reap now
  unfold World.acquireRound
  generalize reapIdleLocked w.config now w.state = reaped at H'
  obtain ⟨s, retired⟩ := reaped
  dsimp only at H' ⊢
  split
  · exact H'.look ht hlooks rfl rfl H'.books.bounded nofun
  · split
    · next vm hlast => exact H'.pop ht hlooks hlast
    · next hempty =>
      split
      · next hfree => exact H'.look ht hlooks rfl rfl hfree nofun
      · next hfull =>
        refine H'.look ht hlooks rfl rfl H'.books.bounded fun _ => ?_
        have := getLast?_eq_none_iff.1 hempty
        dsimp only [capacity]
        rw [this, length_nil]
        omega

/-- A new caller, and a sleeper that woke by itself, only make the lookers more. -/
theorem Inv.arrive (H : w.Inv) (ht : ∀ phase, w.calls.lookup t = some phase → phase = .waiting) :
    Inv { w with calls := w.calls.insert t .locking } := by
  have hcounts : (w.calls.insert t .locking).countBy (·.creates) = w.calls.countBy (·.creates) ∧
      w.calls.countBy (·.looks) ≤ (w.calls.insert t .locking).countBy (·.looks) ∧
      (w.calls.insert t .locking).countBy (· = .waiting) ≤ w.calls.countBy (· = .waiting) := by
    simp only [countBy_insert]
    cases hlookup : w.calls.lookup t with
    | none =>
      rw [erase_of_notMem (lookup_eq_none.1 hlookup)]
      exact ⟨rfl, Nat.le_add_right .., le_refl _⟩
    | some phase =>
      cases ht phase hlookup
      simp only [countBy_of_lookup hlookup]
      exact ⟨rfl, Nat.le_add_right .., Nat.le_add_right ..⟩
  obtain ⟨hcreates, hlooks, hsleeps⟩ := hcounts
  refine ⟨{ H.books with total := H.books.total.trans (congrArg _ hcreates.symm) }, fun hsleep => ?_⟩
  exact (H.awake (hsleep.trans_le hsleeps)).trans hlooks

theorem Inv.step (H : w.Inv) (h : w.step act = some w') : w'.Inv := by
  cases act with
  | acquire t =>
    simp only [World.step] at h
    split at h
    · cases h
    · next hnew =>
      cases h
      refine H.arrive fun phase hphase => absurd (mem_of_lookup hphase) hnew
  | round t now used =>
    simp only [World.step] at h
    split at h
    · next ht => cases h; exact H.acquireRound ht rfl
    · next ht => cases h; exact H.acquireRound ht rfl
    · cases h
  | wakeUp t =>
    simp only [World.step] at h
    split at h
    · next ht =>
      cases h
      exact H.arrive fun phase hphase => some_inj.1 (hphase.symm.trans ht)
    · cases h
  | created t used =>
    simp only [World.step] at h
    split at h
    · next ht => cases h; exact H.created ht
    · cases h
  | failed t error woken =>
    simp only [World.step] at h
    split at h
    · next ht =>
      obtain ⟨B, A⟩ := H.books.failed H.awake ht error
      exact B.notifyOne A h
    · cases h
  | dropLease l used now woken =>
    simp only [World.step] at h
    split at h
    · next vm hl =>
      obtain ⟨B, A⟩ := H.comeBack hl used
      have R := reapIdleLocked_reaps w.config now
        { w.state with available := w.state.available ++ [{ vm with lastUsedAt := used }] }
      exact (B.reap R).notifyOne (fun hsleep => (B.capacity_reap R).trans_le (A hsleep)) h
    · next hl => cases h; exact H.forget hl
    · cases h
  | discard l woken =>
    simp only [World.step] at h
    split at h
    · next vm hl =>
      obtain ⟨B, A⟩ := H.discard hl
      exact B.notifyOne A h
    · cases h; exact H
    · cases h

theorem Inv.run (H : w.Inv) (h : w.run acts = some w') : w'.Inv := by
  induction acts generalizing w with
  | nil => cases h; exact H
  | cons act acts ih =>
    rw [World.run, foldlM_cons] at h
    obtain ⟨w₁, hstep, hrun⟩ := bind_eq_some_iff.1 h
    exact ih (H.step hstep) hrun

theorem notifyOne_config (h : w.notifyOne woken = some w') : w'.config = w.config := by
  unfold notifyOne at h
  split at h <;> split at h <;> cases h <;> rfl

theorem acquireRound_config : (w.acquireRound t now used).config = w.config := by
  unfold World.acquireRound
  dsimp only
  split
  · rfl
  · split
    · rfl
    · split <;> rfl

theorem step_config (h : w.step act = some w') : w'.config = w.config := by
  cases act <;> simp only [World.step] at h <;> split at h
  all_goals first
    | exact (notifyOne_config h).trans rfl
    | cases h; first | rfl | exact acquireRound_config
    | cases h

theorem run_config (h : w.run acts = some w') : w'.config = w.config := by
  induction acts generalizing w with
  | nil => cases h; rfl
  | cons act acts ih =>
    rw [World.run, foldlM_cons] at h
    obtain ⟨w₁, hstep, hrun⟩ := bind_eq_some_iff.1 h
    exact (ih hrun).trans (step_config hstep)

end World

/-! ## Prewarming -/

/-- The VMs of the first `n` calls of the factory lie idle, and nothing else is counted. -/
structure Warm (n : ℕ) (s : LuaVmPoolState) : Prop where
  total : s.totalCount = n
  idle : s.available.length = n
  once : ∀ id, s.available.countP (·.id = id) ≤ if id < n then 1 else 0

theorem Warm.add (W : Warm n s) (used : Instant) :
    Warm (n + 1) ⟨s.available ++ [⟨n, used⟩], s.totalCount + 1⟩ := by
  refine ⟨congrArg _ W.total, ?_, fun id => ?_⟩
  · rw [length_append, length_singleton, W.idle]
  · have := W.once id
    rw [countP_append, countP_singleton]
    simp only [decide_eq_true_eq]
    split_ifs at this ⊢ <;> omega

/-- Nothing is retired below the minimum. -/
theorem reapIdleLocked_of_le (h : s.totalCount ≤ config.minSize) : reapIdleLocked config now s = (s, []) :=
  if_pos h

theorem prewarmFrom_warm (hfuel : i + fuel = config.minSize) (W : Warm i s)
    (h : prewarmFrom config factory clock fuel i s = (.ok (), s')) : Warm config.minSize s' := by
  induction fuel generalizing i s with
  | zero =>
    cases h
    rwa [← hfuel]
  | succ fuel ih =>
    unfold prewarmFrom at h
    have htotal := W.total
    rw [if_pos (by omega)] at h
    split at h
    · next used _ =>
      rw [reapIdleLocked_of_le (by dsimp only; omega)] at h
      exact ih (by omega) (W.add used) h
    · cases h

theorem prewarm_warm (h : prewarm config factory clock = (.ok (), s)) : Warm config.minSize s :=
  prewarmFrom_warm (zero_add _) ⟨rfl, rfl, fun _ => zero_le _⟩ h

namespace World
variable {w : World} {s : LuaVmPoolState} {config : LuaVmPoolConfig}

theorem Inv.new (W : Warm config.minSize s)
    (hsize : config.minSize ≤ config.maxSize) : (World.new config s).Inv := by
  refine ⟨⟨?_, W.total.trans_le hsize, W.once, nofun, rfl⟩, fun hsleep => absurd hsleep (lt_irrefl _)⟩
  exact W.total.trans W.idle.symm

/-- What the pool promises in a state of a run. -/
structure Accounted (w : World) : Prop where
  total : w.state.totalCount =
    w.state.available.length + w.leases.countBy (·.vm.isSome) + w.calls.countBy (· = .creating)
  bounded : w.state.totalCount ≤ w.config.maxSize
  solvent : w.saturated = false
  minimum : ∀ now s, min w.config.minSize s.totalCount ≤ (reapIdleLocked w.config now s).1.totalCount
  /-- No VM is in two leases. -/
  leased : ∀ l l' vm vm', w.leases.lookup l = some ⟨some vm⟩ → w.leases.lookup l' = some ⟨some vm'⟩ →
    vm.id = vm'.id → l = l'
  /-- No leased VM lies idle. -/
  away : ∀ l vm, w.leases.lookup l = some ⟨some vm⟩ → ∀ idle ∈ w.state.available, idle.id ≠ vm.id
  /-- While a caller sleeps, every idle VM and every free slot has a caller of its own that was notified or
  is about to look. -/
  claimed : 0 < w.calls.countBy (· = .waiting) →
    w.state.available.length + (w.config.maxSize - w.state.totalCount) ≤
      w.calls.countBy fun phase => phase = .locking ∨ phase = .notified

theorem Inv.promised (H : w.Inv) : w.Accounted := by
  have hholds : ∀ {l vm}, w.leases.lookup l = some ⟨some vm⟩ →
      w.state.available.countP (·.id = vm.id) + (w.leases.erase l).countBy (·.holds vm.id) = 0 := by
    intro l vm hl
    have := (H.books.once vm.id).trans (show _ ≤ 1 by split_ifs <;> omega)
    rw [homes, countBy_of_lookup (p := (·.holds vm.id)) hl, (LuaVmLease.holds_eq ..).1,
      decide_eq_true rfl, if_pos rfl] at this
    omega
  refine ⟨?_, H.books.bounded, H.books.solvent, fun now s => (reapIdleLocked_reaps w.config now s).minimum,
    fun l l' vm vm' hl hl' hid => ?_, fun l vm hl idle hidle hid => ?_, fun hsleep => ?_⟩
  · rw [H.books.total]
    congr 2
    funext phase
    cases phase <;> rfl
  · by_contra hne
    have hother : (w.leases.erase l).lookup l' = some ⟨some vm'⟩ :=
      (lookup_erase_ne (Ne.symm hne)).trans hl'
    have := countBy_pos_of_lookup (p := (·.holds vm.id)) hother (decide_eq_true hid.symm)
    have := hholds hl
    omega
  · have := countP_pos_iff (p := (·.id = vm.id)) |>.2 ⟨idle, hidle, decide_eq_true hid⟩
    have := hholds hl
    omega
  · refine (H.awake hsleep).trans (le_of_eq ?_)
    rw [add_zero]
    congr 1
    funext phase
    cases phase <;> rfl

/-- After a prewarm, the pool's accounts are right in every state of every run, and nobody sleeps while
something that it could take is left for nobody. -/
theorem run_accounted {config : LuaVmPoolConfig} {factory : ℕ → Except String Instant}
    {clock : ℕ → Instant} {state : LuaVmPoolState} {acts : List Act}
    (hprewarm : prewarm config.normalized factory clock = (.ok (), state))
    (hrun : (World.new config.normalized state).run acts = some w) :
    w.config = config.normalized ∧ w.Accounted := by
  have hnew : (World.new config.normalized state).Inv := .new (prewarm_warm hprewarm) (le_max_right ..)
  exact ⟨run_config hrun, (hnew.run hrun).promised⟩

/-- One VM and two callers: the second sleeps until the first gives the VM back. -/
def handover : List Act :=
  [.acquire 0, .round 0 1 1, .acquire 1, .round 1 2 2, .dropLease 0 3 3 (some 1), .round 1 4 4]

theorem run_accounted_handover :
    ∃ w : World, (World.new (LuaVmPoolConfig.normalized ⟨1, 1, 60⟩) ⟨[⟨0, 0⟩], 1⟩).run handover = some w ∧
      w.returned = [(0, .ok 0), (1, .ok 1)] ∧ w.Accounted := by
  have hprewarm : prewarm (LuaVmPoolConfig.normalized ⟨1, 1, 60⟩) (fun _ => .ok 0) (fun _ => 0) =
      (.ok (), ⟨[⟨0, 0⟩], 1⟩) := rfl
  exact ⟨_, rfl, rfl, (run_accounted hprewarm (show World.run _ handover = _ from rfl)).2⟩

end World

end LuaSkills.VmPool
