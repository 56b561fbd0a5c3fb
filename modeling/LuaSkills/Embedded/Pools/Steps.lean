import LuaSkills.Embedded.Pools.Worker

/-!
# Steps

Every section returns and keeps the invariant. `Calm` is what a section does to a shutdown: while all
pools are shut nothing comes in, and only the sections of `poll_closed` and the worker's exit touch the
shutdown itself.
-/

namespace LuaSkills.Embedded.Pools

open AList List PoolGovernor

namespace PoolWorld
variable {w w' : PoolWorld} {k p vm : ℕ} {pool pool' : ModulePool} {a : PoolAction}
  {th rest : List PoolAction}

/-- The manager is closing and all its pools are shut. -/
def Settled (w : PoolWorld) : Prop :=
  w.closing = true ∧
    ∀ p pool, w.pools.lookup p = some pool → pool.closed = true ∨ pool.alive = false

def StillShut (w w' : PoolWorld) : Prop :=
  ∀ p pool', w'.pools.lookup p = some pool' → ∃ pool, w.pools.lookup p = some pool ∧
    (pool.closed = true → pool'.closed = true) ∧ (pool.alive = false → pool'.alive = false)

structure Calm (w w' : PoolWorld) : Prop where
  settled : w.Settled → w'.Settled ∧
    ∀ vm ∈ w'.governor.state.allocations, vm ∈ w.governor.state.allocations
  threads : ∀ th ∈ w'.threads, .join ∈ th → th ∈ w.threads ∨
    ∃ a rest, a :: rest ∈ w.threads ∧ .join ∈ rest ∧ a ≠ .readUsage ∧ a ≠ .tryShutdown
  stopping : w'.stopping = w.stopping
  exited : w'.worker = .exited → w.worker = .exited
  reported : ∀ n, .reportedClosed n ∈ w'.log → .reportedClosed n ∈ w.log

theorem Calm.refl : Calm w w :=
  ⟨fun h => ⟨h, fun _ h => h⟩, fun _ h _ => .inl h, rfl, id, fun _ h => h⟩

theorem Settled.of_stillShut (h : w.Settled) (hclosing : w'.closing = w.closing)
    (hpools : StillShut w w') : w'.Settled := by
  refine ⟨hclosing.trans h.1, fun p pool' hp => ?_⟩
  obtain ⟨pool, hpool, hclosed, halive⟩ := hpools p pool' hp
  exact (h.2 p pool hpool).imp hclosed halive

theorem StillShut.of_eq (h : w'.pools = w.pools) : StillShut w w' :=
  fun _ pool hp => ⟨pool, h ▸ hp, id, id⟩

theorem StillShut.insert (hp : w.pools.lookup p = some pool) (h : w'.pools = w.pools.insert p pool')
    (hclosed : pool.closed = true → pool'.closed = true)
    (halive : pool.alive = false → pool'.alive = false) : StillShut w w' := by
  intro q pool₁ hq
  rw [h, lookup_insert_eq] at hq
  split at hq
  · next e =>
    cases e
    cases hq
    exact ⟨pool, hp, hclosed, halive⟩
  · exact ⟨pool₁, hq, id, id⟩

/-- A section that starts no part of a shutdown. -/
theorem Calm.of_frame (hclosing : w'.closing = w.closing) (hpools : StillShut w w')
    (hallocations : w.Settled → ∀ vm ∈ w'.governor.state.allocations,
      vm ∈ w.governor.state.allocations)
    (hthreads : ∀ th ∈ w'.threads, .join ∈ th → th ∈ w.threads ∨
      ∃ a rest, a :: rest ∈ w.threads ∧ .join ∈ rest ∧ a ≠ .readUsage ∧ a ≠ .tryShutdown)
    (hstopping : w'.stopping = w.stopping) (hexited : w'.worker = .exited → w.worker = .exited)
    (hlog : ∀ n, .reportedClosed n ∈ w'.log → .reportedClosed n ∈ w.log) : Calm w w' :=
  ⟨fun h => ⟨h.of_stillShut hclosing hpools, hallocations h⟩, hthreads, hstopping, hexited, hlog⟩

/-! ## Calls of the governor -/

theorem attempt_spec {α : Type} {result : Checked α} {ok : α → PoolWorld} {refused : PoolWorld}
    {P : PoolWorld → Prop} (hr : result.Returns) (hok : ∀ a, result = .ok a → P (ok a))
    (hrefused : P refused) : ∃ w', attempt result ok refused = .ok w' ∧ P w' := by
  match result with
  | .ok a => exact ⟨_, rfl, hok a rfl⟩
  | .error (.err e) => exact ⟨_, rfl, hrefused⟩
  | .error (.panic m) => exact absurd rfl (hr m)

def Fine (w w' : PoolWorld) : Prop := w'.Inv ∧ w.Calm w'

theorem Inv.fine (H : w.Inv) : w.Fine w := ⟨H, .refl⟩

theorem Inv.fine_govern (H : w.Inv) (K : Keeps w.governor g) : w.Fine { w with governor := g } :=
  ⟨H.govern K, .of_frame rfl (.of_eq rfl) (fun _ _ h => K.mem.1 h) (fun _ h _ => .inl h) rfl id
    fun _ h => h⟩

theorem notMem_of_dropReservation (h : v ∈ (w.governor.dropReservation ⟨vm⟩).state.allocations) :
    v ∈ w.governor.state.allocations :=
  (mem_erase.1 h).2

/-! ## Registration -/

theorem Inv.createPool (H : w.Inv) : ∃ w', w.createPool group policy capacityId = .ok w' ∧ w.Fine w' := by
  unfold PoolWorld.createPool
  split
  · exact ⟨w, rfl, H.fine⟩
  · next hopen =>
    refine attempt_spec registerGroupInternal_returns (fun g h => ⟨H.register h, ?_⟩) H.fine
    exact ⟨fun hs => absurd hs.1 hopen, fun _ h _ => .inl h, rfl, id, fun _ h => h⟩

theorem Inv.release (H : w.Inv) : ∃ w', w.releaseIfDrained p = .ok w' ∧ w.Fine w' ∧ w'.Settles p ∧
    w'.threads = w.threads ∧ w'.worker = w.worker := by
  obtain ⟨w', h, H', hsettles, hthreads, hworker⟩ := H.releaseIfDrained (p := p)
  refine ⟨w', h, ⟨H', ?_⟩, hsettles, hthreads, hworker⟩
  unfold PoolWorld.releaseIfDrained at h
  split at h
  · cases h
    exact .refl
  · next pool hp =>
    split at h
    · unfold attempt at h
      split at h
      · next g hg =>
        cases h
        have hmem : ∀ v ∈ g.state.allocations, v ∈ w.governor.state.allocations := by
          simp only [unregisterGroup, Except.bind_eq_ok, refuseIf_eq_ok,
            EmbeddedResult.lift_eq_ok, lock_eq_ok] at hg
          obtain ⟨_, ⟨_, rfl⟩, _, _, _, _, hg⟩ := hg
          cases hg
          exact fun _ h => h
        refine .of_frame rfl (.insert hp rfl id id) (fun _ => hmem) (fun _ h _ => .inl h) rfl id
          fun n h => ?_
        rcases mem_append.1 h with h | h
        · exact h
        · cases mem_singleton.1 h
      · cases h
        exact .refl
      · cases h
    · cases h
      exact .refl

/-! ## Leases -/

theorem mem_spawn (hjoin : .join ∉ th) (hx : x ∈ (w.spawn th).threads) (hj : .join ∈ x) :
    x ∈ w.threads := by
  rcases mem_append.1 hx with hx | hx
  · exact hx
  · cases mem_singleton.1 hx
    exact absurd hj hjoin

theorem join_notMem_enqueue {vms : List ℕ} : .join ∉ vms.flatMap enqueue := by
  simp [enqueue]

theorem sweep_count (elapsed : ℕ → Bool) (removable : ℕ) : ∀ (n : ℕ) (x : List ℕ × List ℕ),
      (sweep elapsed removable n x).1.count v + (sweep elapsed removable n x).2.count v =
        x.1.count v + x.2.count v := by
  intro n
  induction n with
  | zero => exact fun _ => rfl
  | succ n ih =>
    rintro ⟨idle, expired⟩
    unfold sweep
    split
    · next u hu =>
      split
      · rw [ih]
        have hperm := (perm_swapRemove hu).count_eq v
        simp only [count_append, count_cons, count_nil] at hperm ⊢
        omega
      · exact ih _
    · exact ih _

theorem Inv.retireExpired (H : w.Inv) : w.Fine (w.retireExpired p elapsed) := by
  unfold PoolWorld.retireExpired
  split
  · exact H.fine
  · next pool hp =>
    split
    · next hc =>
      dsimp only
      let swept := sweep elapsed (pool.idle.length - pool.policy.minResidentVms) pool.idle.length
        (pool.idle, [])
      have hgoes : Goes pool { pool with idle := swept.1 } := ⟨rfl, rfl, rfl, id, id⟩
      have hfollows : Follows (swept.2.flatMap enqueue) := by
        have : Follows (swept.2.flatMap enqueue ++ []) := Follows.flatMap_enqueue swept.2 trivial
        rwa [append_nil] at this
      have hset : ∀ q, PoolAction.setClosing q ∉ swept.2.flatMap enqueue := by simp [enqueue]
      refine ⟨H.unload hp hgoes rfl (.spawn hfollows) (fun v => ?_) fun q h => absurd h (hset q), ?_⟩
      · rw [count_push_enqueue]
        have := sweep_count elapsed (pool.idle.length - pool.policy.minResidentVms) (v := v)
          pool.idle.length (pool.idle, [])
        rwa [count_nil, Nat.add_zero] at this
      · exact .of_frame rfl (.insert hp rfl id id) (fun _ _ h => h)
          (fun x hx hj => .inl (mem_spawn (w := w.setPool p _) join_notMem_enqueue hx hj)) rfl id
          fun _ h => h
    · exact H.fine

theorem Inv.prepare (H : w.Inv) : ∃ w', w.prepare p pinned allowNew = .ok w' ∧ w.Fine w' := by
  unfold PoolWorld.prepare
  split
  · exact ⟨w, rfl, H.fine⟩
  · next pool hp =>
    split
    · exact ⟨w, rfl, H.fine⟩
    · next hopen =>
      rw [not_or, not_not, Bool.not_eq_true] at hopen
      split
      · next vm hvm =>
        have hlast : pool.idle.getLast? = some vm := by
          cases pinned with
          | true => cases hvm
          | false => exact hvm
        exact ⟨_, rfl, H.lend hp hlast, .of_frame rfl (.insert hp rfl id id) (fun _ _ h => h)
          (fun _ h _ => .inl h) rfl id fun _ h => h⟩
      · split
        · refine attempt_spec (reserve_returns H.governor) ?_ H.fine
          rintro ⟨g, r⟩ h
          have hreleased : pool.released = false := by
            cases hr : pool.released with
            | false => rfl
            | true =>
              obtain ⟨pool₁, hp₁, hshut⟩ := H.orderly.closing p pool hp (H.orderly.released p pool hp hr)
              cases hp.symm.trans hp₁
              rw [hopen.1, hopen.2] at hshut
              rcases hshut with h | h <;> cases h
          have hreg : w.registration p = some (pool.group, pool.policy) := by
            rw [registration, hp, Option.bind_some, hreleased]
            rfl
          refine ⟨H.reserve hreg h, .of_frame rfl (.of_eq rfl) (fun hs => ?_) (fun _ h _ => .inl h) rfl id
            fun _ h => h⟩
          rcases hs.2 p pool hp with h | h
          · rw [hopen.2] at h
            cases h
          · rw [hopen.1] at h
            cases h
        · exact ⟨w, rfl, H.fine⟩

theorem Calm.of_leases {g : PoolGovernor} {residents : AssocMap ℕ ResidentModule}
    {leases : AssocMap ℕ ModuleLease} {receipts : AssocMap ℕ ModuleRetirementSnapshot}
    (h : ∀ v ∈ g.state.allocations, v ∈ w.governor.state.allocations) :
    Calm w { w with governor := g, residents, leases, receipts } :=
  .of_frame rfl (.of_eq rfl) (fun _ => h) (fun _ h _ => .inl h) rfl id fun _ h => h

theorem Inv.initializeLease (H : w.Inv) : ∃ w', w.initializeLease k = .ok w' ∧ w.Fine w' := by
  unfold PoolWorld.initializeLease
  split
  · next p pinned vm hl =>
    refine attempt_spec (beginExecution_returns H.governor) ?_ ⟨?_, ?_⟩
    · rintro ⟨g, permit⟩ h
      obtain ⟨K, hpermit⟩ := beginExecution_keeps h
      exact ⟨(H.govern K).relet hl (fun _ => rfl) (fun _ => rfl) hpermit,
        Calm.of_leases fun _ h => K.mem.1 h⟩
    · exact H.forsake hl (decide_eq_true rfl)
    · exact Calm.of_leases fun _ h => notMem_of_dropReservation h
  · exact ⟨w, rfl, H.fine⟩

theorem Inv.permit_mem (H : w.Inv) (hl : w.leases.lookup k = some l)
    (hhold : l.holding = .allocating vm permit ∨ l.holding = .executing vm permit) :
    permit.id ∈ w.governor.state.allocations := by
  have hid : permit.id = vm := by
    have := H.seated.permit k l hl
    rcases hhold with h | h <;> rw [h] at this <;> exact this
  rcases hhold with h | h
  · obtain ⟨c, -, hvm⟩ := H.seated.lease k l vm hl (by rw [h]; exact decide_eq_true rfl)
    exact hid ▸ mem_of_groupOf hvm
  · refine hid ▸ (H.charged ?_).2.2.2
    have := countBy_pos_of_lookup (p := fun l => l.holding.houses vm) hl
      (by rw [h]; exact decide_eq_true rfl)
    rw [homes]
    omega

theorem Inv.allocated (H : w.Inv) : ∃ w', w.allocated k built = .ok w' ∧ w.Fine w' := by
  unfold PoolWorld.allocated
  split
  · next p pinned vm permit hl =>
    refine attempt_spec (dropPermit_returns (H.permit_mem hl (.inl rfl))) (fun g h => ?_) H.fine
    have K := dropPermit_keeps h
    have Hg := H.govern K
    split
    · exact ⟨Hg.build hl rfl, Calm.of_leases fun _ h => K.mem.1 h⟩
    · exact ⟨Hg.forsake hl (decide_eq_true rfl), Calm.of_leases fun _ h =>
        K.mem.1 (notMem_of_dropReservation (w := { w with governor := g }) h)⟩
  · exact ⟨w, rfl, H.fine⟩

theorem Inv.beginExecution (H : w.Inv) : ∃ w', w.beginExecution k = .ok w' ∧ w.Fine w' := by
  unfold PoolWorld.beginExecution
  split
  · next p pinned vm hl =>
    refine attempt_spec (beginExecution_returns H.governor) ?_ H.fine
    rintro ⟨g, permit⟩ h
    obtain ⟨K, hpermit⟩ := beginExecution_keeps h
    exact ⟨(H.govern K).relet hl (fun _ => rfl) (fun _ => rfl) hpermit,
      Calm.of_leases fun _ h => K.mem.1 h⟩
  · exact ⟨w, rfl, H.fine⟩

theorem Inv.endExecution (H : w.Inv) : ∃ w', w.endExecution k reusable used = .ok w' ∧ w.Fine w' := by
  unfold PoolWorld.endExecution
  split
  · next p pinned vm permit hl =>
    refine attempt_spec (dropPermit_returns (H.permit_mem hl (.inr rfl))) (fun g h => ?_) H.fine
    have K := dropPermit_keeps h
    have Ha := (H.govern K).adjust vm
      (f := fun r => { r with uses := if used then r.uses + 1 else r.uses, reusable }) fun _ => rfl
    refine ⟨Ha.relet hl ?_ ?_ ?_, Calm.of_leases fun _ h => K.mem.1 h⟩
    · exact fun _ => rfl
    · exact fun _ => rfl
    · trivial
  · exact ⟨w, rfl, H.fine⟩

theorem Inv.markReady (H : w.Inv) : ∃ w', w.markReady k = .ok w' ∧ w.Fine w' := by
  unfold PoolWorld.markReady
  split
  · exact attempt_spec transition_returns (fun g h => H.fine_govern (transition_keeps h))
      H.fine
  · exact ⟨w, rfl, H.fine⟩

theorem count_push_one : (enqueue vm).count (.push v) = if vm = v then 1 else 0 := by
  by_cases h : vm = v <;> simp [enqueue, h]

theorem Follows.enqueue_nil : Follows (enqueue vm) := by
  have : Follows (enqueue vm ++ []) := Follows.enqueue vm trivial
  rwa [append_nil] at this

theorem Inv.closeLease (H : w.Inv) : w.Fine (w.closeLease k) := by
  unfold PoolWorld.closeLease
  split
  · next p pinned vm hl =>
    exact ⟨H.forsake hl (decide_eq_true rfl), Calm.of_leases fun _ h => notMem_of_dropReservation h⟩
  · next p pinned vm hl =>
    refine ⟨H.handOver hl rfl (fun _ => count_push_one) Follows.enqueue_nil (by simp [enqueue]), ?_⟩
    exact .of_frame rfl (.of_eq rfl) (fun _ _ h => h)
      (fun x hx hj => .inl (mem_spawn (w := w.setLease k _ _) (by simp [enqueue]) hx hj)) rfl id
      fun _ h => h
  · exact H.fine

/-- A lease that was emptied goes away, and its registration is looked at. -/
theorem Inv.finish_empty (H : w.Inv) (hl : w.leases.lookup k = some l) (hempty : l.holding = .nothing) :
    ({ w with leases := w.leases.erase k }.spawn [.releaseIfDrained l.pool]).Inv := by
  have Hs : (w.spawn [.releaseIfDrained l.pool]).Inv :=
    H.spawn ⟨trivial, trivial⟩ (by simp) (by simp)
  refine Hs.dismiss hl hempty ?_
  have G : Gains w.threads (w.threads ++ [[.releaseIfDrained l.pool]]) [.releaseIfDrained l.pool] :=
    .spawn ⟨trivial, trivial⟩
  have := G.count (.releaseIfDrained l.pool) nofun
  rw [count_singleton_self] at this
  simp only [due, PoolWorld.spawn]
  omega

theorem Inv.finish (H : w.Inv) : w.Fine (w.finish k) := by
  unfold PoolWorld.finish
  have hcalm : ∀ {x : List PoolAction} {pools g}, .join ∉ x → StillShut w { w with pools } →
      (∀ v ∈ g.state.allocations, v ∈ w.governor.state.allocations) →
      Calm w ({ w with governor := g, leases := w.leases.erase k, pools }.spawn x) :=
    fun hx hpools hg => .of_frame rfl hpools (fun _ => hg)
      (fun y hy hj => .inl (mem_spawn (w := w) hx hy hj)) rfl id fun _ h => h
  split
  · next p pinned vm hl =>
    split
    · next pool r hp hr =>
      split
      · refine ⟨?_, hcalm (by simp) (.insert hp rfl id id) fun _ h => h⟩
        have := (H.shelve hl rfl hp).finish_empty (k := k) (lookup_insert _) rfl
        simp only [setLease, setPool, erase_insert] at this
        exact this
      · refine ⟨?_, hcalm (by simp [enqueue]) (.of_eq rfl) fun _ h => h⟩
        have Ho : ((w.setLease k ⟨p, pinned, .resident vm⟩ .nothing).spawn
            (enqueue vm ++ [PoolAction.releaseIfDrained p])).Inv := by
          refine H.handOver hl rfl (fun v => ?_) (Follows.enqueue vm ⟨trivial, trivial⟩) (by simp [enqueue])
          rw [count_append, count_push_one]
          rfl
        have := Ho.dismiss (k := k) (lookup_insert _) rfl (by
          have G : Gains w.threads (w.threads ++ [enqueue vm ++ [.releaseIfDrained p]])
              (enqueue vm ++ [.releaseIfDrained p]) := .spawn (Follows.enqueue vm ⟨trivial, trivial⟩)
          have := G.count (.releaseIfDrained p) (by rintro _ ⟨⟩)
          rw [count_append, count_singleton_self] at this
          simp only [due, PoolWorld.spawn, setLease]
          omega)
        simp only [setLease, PoolWorld.spawn, erase_insert] at this
        exact this
    · exact H.fine
  · next p pinned vm hl =>
    refine ⟨?_, hcalm (by simp) (.of_eq rfl) fun _ h => notMem_of_dropReservation h⟩
    have := (H.forsake hl (decide_eq_true rfl)).finish_empty (k := k) (lookup_insert _) rfl
    simp only [setLease, erase_insert] at this
    exact this
  · next p pinned hl =>
    exact ⟨H.finish_empty hl rfl, hcalm (by simp) (.of_eq rfl) fun _ h => h⟩
  · exact H.fine

end PoolWorld

end LuaSkills.Embedded.Pools
