import LuaSkills.Embedded.Pools.Shutdown

/-!
# Runs of the pools

Every section returns, and in every state a retired machine keeps its charge until it is destroyed. The
report of `poll_closed` is true in a run in which it never finds the manager closing while
`request_close` is still on its way to some pool: `request_close` publishes `closing` before it closes
the pools.
-/

namespace LuaSkills.Embedded.Pools

open AList List

namespace PoolWorld
variable {w w' : PoolWorld} {t vm : ℕ} {a : PoolAction} {rest : List PoolAction}

def Vacant (w : PoolWorld) : Prop := ∀ vm, vm ∉ w.governor.state.allocations

structure Careful (w : PoolWorld) : Prop where
  polls : ∀ th ∈ w.threads, .join ∈ th → w.Settled ∧
    (th = [.readUsage, .tryShutdown, .join] ∨ (th = [.tryShutdown, .join] ∨ th = [.join]) ∧ w.Vacant)
  stopping : w.stopping = true → w.Settled ∧ w.Vacant
  exited : w.worker = .exited → w.stopping = true
  reported : ∀ n, .reportedClosed n ∈ w.log → n = 0

theorem Careful.new (config : ParentConfig) : (new config).Careful :=
  ⟨nofun, nofun, nofun, nofun⟩

theorem Careful.calm (S : w.Careful) (C : w.Calm w') : w'.Careful := by
  have hkeep : w.Settled ∧ w.Vacant → w'.Settled ∧ w'.Vacant := by
    intro ⟨hs, hv⟩
    obtain ⟨hs', hmem⟩ := C.settled hs
    exact ⟨hs', fun vm h => hv vm (hmem vm h)⟩
  refine ⟨fun th hth hj => ?_, fun h => hkeep (S.stopping (C.stopping ▸ h)), fun h => ?_,
    fun n h => S.reported n (C.reported n h)⟩
  · rcases C.threads th hth hj with hth | ⟨a, rest, hmem, hrest, hread, htry⟩
    · obtain ⟨hs, h⟩ := S.polls th hth hj
      refine ⟨(C.settled hs).1, h.imp_right fun ⟨hshape, hv⟩ => ⟨hshape, (hkeep ⟨hs, hv⟩).2⟩⟩
    · obtain ⟨-, h | ⟨h | h, -⟩⟩ := S.polls _ hmem (mem_cons_of_mem _ hrest)
      · exact absurd (cons.inj h).1 hread
      · exact absurd (cons.inj h).1 htry
      · rw [(cons.inj h).2] at hrest
        cases hrest
  · rw [C.stopping]
    exact S.exited (C.exited h)

theorem resident_eq : w.resident = w.governor.state.allocations.size := by
  rw [resident, countAllocations_resident]
  exact length_map _

theorem vacant_iff : w.Vacant ↔ w.resident = 0 := by
  rw [resident_eq, size, length_eq_zero_iff]
  constructor
  · intro h
    rw [eq_nil_iff_forall_not_mem]
    intro e he
    exact h e.1 (mem_of_lookup (mem_entries_iff.1 he))
  · intro h vm hvm
    obtain ⟨a, ha⟩ := mem_iff_lookup.1 hvm
    have := mem_entries_iff (e := ⟨vm, a⟩).2 ha
    rw [h] at this
    cases this

/-! ## Polling -/

theorem Inv.reported (H : w.Inv) : (w.record (.reportedClosed n)).Inv := { H with
  owned := { H.owned with }
  orderly := { H.orderly with }
  receipted := { H.receipted with }
  chronicle := H.chronicle.record rfl (fun _ => rfl) (fun _ => rfl) (fun _ => rfl) nofun }

theorem Inv.stop (H : w.Inv) : Inv { w with stopping := true } := { H with
  owned := { H.owned with }
  orderly := { H.orderly with }
  receipted := { H.receipted with }
  chronicle := { H.chronicle with } }

/-- The threads of a careful world after one of them went on. -/
theorem Careful.polls_set (S : w.Careful) (h : rest = [] ∨ (w.Settled ∧
      (rest = [.tryShutdown, .join] ∨ rest = [.join]) ∧ w.Vacant)) :
    ∀ th ∈ w.threads.set t rest, .join ∈ th → w.Settled ∧
      (th = [.readUsage, .tryShutdown, .join] ∨ (th = [.tryShutdown, .join] ∨ th = [.join]) ∧
        w.Vacant) := by
  intro th hth hj
  rcases mem_or_eq_of_mem_set hth with hth | rfl
  · exact S.polls th hth hj
  · rcases h with rfl | ⟨hs, hv⟩
    · cases hj
    · exact ⟨hs, .inr hv⟩

theorem Inv.poll (H : w.Inv) (h : w.threads[t]? = some (a :: rest)) (ha : a.polls = true) :
    ∃ w', w.turn t = .ok w' ∧ w'.Inv ∧ (w.Careful → w'.Careful) := by
  have hmem := mem_of_getElem? h
  have hfollows := (H.orderly.follows _ hmem).1
  unfold turn
  rw [h]
  dsimp only
  cases a with
  | readUsage =>
    obtain rfl : rest = [.tryShutdown, .join] := hfollows
    by_cases hres : w.resident ≠ 0
    · simp only [PoolWorld.perform, if_pos hres]
      refine ⟨_, rfl, H.pass h trivial (fun _ => rfl) (fun _ => rfl) fun _ => Nat.zero_le _, fun S => ?_⟩
      exact ⟨S.polls_set (.inl rfl), S.stopping, S.exited, S.reported⟩
    · simp only [PoolWorld.perform, if_neg hres]
      refine ⟨_, rfl, H.over h (by rintro _ ⟨⟩) (by rintro _ ⟨⟩), fun S => ?_⟩
      obtain ⟨hs, -⟩ := S.polls _ hmem (by simp)
      exact ⟨S.polls_set (.inr ⟨hs, .inl rfl, vacant_iff.2 (not_not.1 hres)⟩), S.stopping, S.exited,
        S.reported⟩
  | tryShutdown =>
    obtain rfl : rest = [.join] := hfollows
    by_cases hbusy : w.worker.running ∨ w.pending ≠ []
    · simp only [PoolWorld.perform, if_pos hbusy]
      refine ⟨_, rfl, H.pass h trivial (fun _ => rfl) (fun _ => rfl) fun _ => Nat.zero_le _, fun S => ?_⟩
      exact ⟨S.polls_set (.inl rfl), S.stopping, S.exited, S.reported⟩
    · simp only [PoolWorld.perform, if_neg hbusy]
      refine ⟨_, rfl, H.stop.over (a := .tryShutdown) h (by rintro _ ⟨⟩) (by rintro _ ⟨⟩), fun S => ?_⟩
      obtain ⟨hs, h | ⟨-, hv⟩⟩ := S.polls _ hmem (by simp)
      · cases h
      · exact ⟨S.polls_set (.inr ⟨hs, .inr rfl, hv⟩), fun _ => ⟨hs, hv⟩, fun _ => rfl, S.reported⟩
  | join =>
    obtain rfl : rest = [] := hfollows
    by_cases hexit : w.worker = .exited
    · simp only [PoolWorld.perform, if_pos hexit]
      refine ⟨_, rfl, H.reported.over (a := .join) h (by rintro _ ⟨⟩) (by rintro _ ⟨⟩), fun S => ?_⟩
      obtain ⟨hs, h | ⟨-, hv⟩⟩ := S.polls _ hmem (by simp)
      · cases h
      · refine ⟨S.polls_set (.inl rfl), S.stopping, S.exited, fun n hn => ?_⟩
        rcases mem_append.1 hn with hn | hn
        · exact S.reported n hn
        · cases mem_singleton.1 hn
          exact vacant_iff.1 hv
    · simp only [PoolWorld.perform, if_neg hexit]
      refine ⟨_, rfl, H.over h (by rintro _ ⟨⟩) (by rintro _ ⟨⟩), fun S => ?_⟩
      exact ⟨S.polls_set (.inl rfl), S.stopping, S.exited, S.reported⟩
  | mark => cases ha
  | queue => cases ha
  | push => cases ha
  | close => cases ha
  | setClosing => cases ha
  | releaseIfDrained => cases ha

/-! ## Steps and runs -/

/-- When `poll_closed` finds the manager closing, every pool that has a handle is closed. -/
def Ready (w : PoolWorld) : PoolAct → Prop
  | .pollClosed => w.closing = true →
      ∀ p pool, w.pools.lookup p = some pool → pool.alive = true → pool.closed = true
  | _ => True

def Punctual (w : PoolWorld) : List PoolAct → Prop
  | [] => True
  | act :: acts => w.Ready act ∧ ∀ w', w.step act = .ok w' → Punctual w' acts

theorem forall_pools_iff {q : ModulePool → Prop} :
    (∀ p pool, w.pools.lookup p = some pool → q pool) ↔ ∀ pool ∈ w.pools.values, q pool := by
  simp only [mem_values_iff, forall_exists_index]
  exact forall_comm

instance (act : PoolAct) : Decidable (w.Ready act) :=
  match act with
  | .pollClosed => decidable_of_iff
      (w.closing = true → ∀ pool ∈ w.pools.values, pool.alive = true → pool.closed = true)
      (imp_congr_right fun _ => forall_pools_iff.symm)
  | .registerCapacity .. | .unregisterCapacity .. | .reviseCapacity .. | .createPool .. | .retireExpired ..
  | .prepare .. | .initializeLease .. | .allocated .. | .beginExecution .. | .endExecution ..
  | .markReady .. | .closeLease .. | .finish .. | .closePool .. | .dropPool .. | .dropRegistration ..
  | .requestClose | .turn .. | .work .. => isTrue trivial

theorem punctual_cons_iff (h : w.step act = .ok w') :
    w.Punctual (act :: acts) ↔ w.Ready act ∧ w'.Punctual acts := by
  simp [Punctual, h]

instance decidablePunctual : ∀ (w : PoolWorld) acts, Decidable (w.Punctual acts)
  | _, [] => isTrue trivial
  | w, act :: acts =>
    match h : w.step act with
    | .ok w' =>
      have := decidablePunctual w' acts
      decidable_of_iff _ (punctual_cons_iff h).symm
    | .error _ => decidable_of_iff (w.Ready act) (by simp [Punctual, h])

theorem Fine.careful (F : w.Fine w') : w'.Inv ∧ (w.Careful → w'.Careful) := ⟨F.1, fun S => S.calm F.2⟩

theorem Inv.pollClosed (H : w.Inv) :
    w.pollClosed.Inv ∧ (w.Ready .pollClosed → w.Careful → w.pollClosed.Careful) := by
  unfold PoolWorld.pollClosed
  split
  · next hclosing =>
    refine ⟨H.spawn ⟨rfl, rfl, rfl, trivial⟩ (by simp) (by simp), fun hready S => ?_⟩
    refine ⟨fun th hth hj => ?_, S.stopping, S.exited, S.reported⟩
    rcases mem_append.1 hth with hth | hth
    · exact S.polls th hth hj
    · cases mem_singleton.1 hth
      refine ⟨⟨hclosing, fun p pool hp => ?_⟩, .inl rfl⟩
      cases halive : pool.alive with
      | true => exact .inl (hready hclosing p pool hp halive)
      | false => exact .inr rfl
  · exact ⟨H, fun _ S => S⟩

theorem Inv.turn (H : w.Inv) : ∃ w', w.turn t = .ok w' ∧ w'.Inv ∧ (w.Careful → w'.Careful) := by
  cases h : w.threads[t]? with
  | none =>
    refine ⟨w, ?_, H, id⟩
    rw [PoolWorld.turn, h]
  | some th =>
    cases th with
    | nil =>
      refine ⟨w, ?_, H, id⟩
      rw [PoolWorld.turn, h]
    | cons a rest =>
      cases ha : a.polls with
      | true => exact H.poll h ha
      | false =>
        obtain ⟨w', h', F⟩ := H.perform h ha
        exact ⟨w', h', F.careful⟩

theorem Inv.work (H : w.Inv) (cleaned : EmbeddedResult Unit) :
    ∃ w', w.work cleaned = .ok w' ∧ w'.Inv ∧ (w.Careful → w'.Careful) := by
  by_cases hexit : w.worker = .waiting ∧ w.pending = [] ∧ w.stopping = true
  · obtain ⟨hworker, hpending, hstopping⟩ := hexit
    refine ⟨{ w with worker := .exited }, ?_, H.stand hworker (fun _ => rfl) (fun _ => rfl) (fun _ => rfl)
      (fun _ => rfl) (fun _ => rfl) nofun nofun nofun nofun, fun S => ?_⟩
    · simp only [PoolWorld.work, hworker, hpending, hstopping, if_true]
    · exact ⟨S.polls, S.stopping, fun _ => hstopping, S.reported⟩
  · obtain ⟨w', h', F⟩ := H.work_fine cleaned fun hworker hpending =>
      Bool.eq_false_iff.2 fun hstopping => hexit ⟨hworker, hpending, hstopping⟩
    exact ⟨w', h', F.careful⟩

/-- Every section returns, keeps the invariant, and a careful shutdown stays one. -/
theorem Inv.step (H : w.Inv) (act : PoolAct) :
    ∃ w', w.step act = .ok w' ∧ w'.Inv ∧ (w.Ready act → w.Careful → w'.Careful) := by
  have hfine : ∀ {x : Checked PoolWorld}, (∃ w', x = .ok w' ∧ w.Fine w') →
      ∃ w', x = .ok w' ∧ w'.Inv ∧ (w.Ready act → w.Careful → w'.Careful) :=
    fun ⟨w', h, F⟩ => ⟨w', h, F.1, fun _ => F.careful.2⟩
  cases act with
  | registerCapacity id config =>
    simp only [PoolWorld.step]
    split
    · exact hfine ⟨w, rfl, H.fine⟩
    · exact hfine (attempt_spec PoolGovernor.registerCapacity_returns
        (fun _ h => H.fine_govern (registerCapacity_keeps h)) H.fine)
  | unregisterCapacity id =>
    exact hfine (attempt_spec PoolGovernor.unregisterCapacity_returns
      (fun _ h => H.fine_govern (unregisterCapacity_keeps h)) H.fine)
  | reviseCapacity id config =>
    simp only [PoolWorld.step]
    split
    · exact hfine ⟨w, rfl, H.fine⟩
    · exact hfine (attempt_spec PoolGovernor.reviseCapacity_returns
        (fun _ h => H.fine_govern (reviseCapacity_keeps h)) H.fine)
  | createPool group policy capacityId => exact hfine H.createPool
  | retireExpired p elapsed => exact hfine ⟨_, rfl, H.retireExpired⟩
  | prepare p pinned allowNew => exact hfine H.prepare
  | initializeLease k => exact hfine H.initializeLease
  | allocated k built => exact hfine H.allocated
  | beginExecution k => exact hfine H.beginExecution
  | endExecution k reusable used => exact hfine H.endExecution
  | markReady k => exact hfine H.markReady
  | closeLease k => exact hfine ⟨_, rfl, H.closeLease⟩
  | finish k => exact hfine ⟨_, rfl, H.finish⟩
  | closePool p => exact hfine ⟨_, rfl, H.closePool⟩
  | dropPool p => exact hfine ⟨_, rfl, H.dropPool⟩
  | dropRegistration p => exact hfine ⟨_, rfl, H.dropRegistration⟩
  | requestClose => exact hfine ⟨_, rfl, H.requestClose⟩
  | pollClosed => exact ⟨_, rfl, H.pollClosed⟩
  | turn t =>
    obtain ⟨w', h, H', hS⟩ := H.turn (t := t)
    exact ⟨w', h, H', fun _ => hS⟩
  | work cleaned =>
    obtain ⟨w', h, H', hS⟩ := H.work cleaned
    exact ⟨w', h, H', fun _ => hS⟩

theorem Inv.run (H : w.Inv) (acts : List PoolAct) :
    ∃ w', w.run acts = .ok w' ∧ w'.Inv ∧ (w.Punctual acts → w.Careful → w'.Careful) := by
  induction acts generalizing w with
  | nil => exact ⟨w, rfl, H, fun _ S => S⟩
  | cons act acts ih =>
    obtain ⟨w₁, h₁, H₁, hS₁⟩ := H.step act
    obtain ⟨w₂, h₂, H₂, hS₂⟩ := ih H₁
    refine ⟨w₂, ?_, H₂, fun ⟨hready, hrest⟩ S => hS₂ (hrest w₁ h₁) (hS₁ hready S)⟩
    rw [PoolWorld.run, h₁]
    exact h₂

/-! ## What retirement keeps -/

/-- Capacity is kept until real destruction. -/
structure Kept (w : PoolWorld) : Prop where
  /-- A completed receipt is one of a machine that is destroyed and no longer counted. -/
  completed : ∀ vm s, w.receipts.lookup vm = some s → s.phase = .completed →
    vm ∉ w.residents ∧ vm ∉ w.governor.state.allocations
  /-- A machine whose cleanup failed is counted, and in the queue or on its way there or back. -/
  retrying : ∀ vm s, w.receipts.lookup vm = some s → s.phase = .retrying →
    vm ∈ w.residents ∧ vm ∈ w.governor.state.allocations ∧
      (vm ∈ w.pending ∨ w.worker = .popped vm ∨ w.worker = .requeueing vm)
  held : ∀ vm, vm ∈ w.pending ∨ w.worker.houses vm = true →
    vm ∈ w.residents ∧ vm ∈ w.governor.state.allocations
  /-- Each queued retirement is in the queue, with the worker or completed, and in one of them. -/
  conserved : ∀ vm, w.log.count (.queued vm) =
    w.pending.count vm + (w.worker.serves vm).toNat + w.log.count (.completed vm)
  once : ∀ vm, w.log.count (.queued vm) ≤ 1
  failed : ∀ vm code, .failed vm code ∈ w.log → .queued vm ∈ w.log
  receipt : ∀ vm, w.log.count (.completed vm) =
    ((w.receipts.lookup vm).any (·.phase = .completed)).toNat
  /-- A registration is released at most once, -/
  released : ∀ p, w.log.count (.released p) = ((w.pools.lookup p).any (·.released)).toNat
  /-- when the pool is closed or gone and has neither machine nor reservation, -/
  drained : ∀ p pool, w.pools.lookup p = some pool → pool.released = true →
    (pool.closed = true ∨ pool.alive = false) ∧
    (∀ vm r, w.residents.lookup vm = some r → r.pool ≠ p) ∧
    (∀ k l vm, w.leases.lookup k = some l → l.holding.reserves vm → l.pool ≠ p) ∧
    ∀ vm, w.worker ≠ .unreserving vm p
  /-- it keeps its guarantee until then, -/
  guarantee : ∀ group policy, w.governor.state.groups.lookup group = some policy ↔
    ∃ p pool, w.pools.lookup p = some pool ∧ pool.released = false ∧ pool.group = group ∧
      pool.policy = policy
  /-- and somebody will look at it as long as it waits for that. -/
  awaited : ∀ p pool, w.pools.lookup p = some pool → pool.closing = true → pool.released = false →
    (∀ vm, groupOf w.governor vm ≠ some pool.group) → w.Coming p

theorem registration_eq_some : w.registration p = some c ↔
    ∃ pool, w.pools.lookup p = some pool ∧ pool.released = false ∧ (pool.group, pool.policy) = c := by
  rw [registration, Option.bind_eq_some_iff]
  refine exists_congr fun pool => and_congr_right fun _ => ?_
  cases pool.released <;> simp

theorem Inv.kept (H : w.Inv) : w.Kept := by
  have hheld : ∀ vm, vm ∈ w.pending ∨ w.worker.houses vm = true →
      vm ∈ w.residents ∧ vm ∈ w.governor.state.allocations := by
    intro vm h
    suffices hpos : 0 < w.homes vm from (H.charged hpos).2.2
    rw [homes]
    rcases h with h | h
    · have := count_pos_iff.2 h
      omega
    · rw [h, Bool.toNat_true]
      omega
  have hseat : ∀ {vm p pool}, w.pools.lookup p = some pool → pool.released = true →
      ¬ Seat w.registration (groupOf w.governor) vm p := by
    rintro vm p pool hp hr ⟨c, hc, _⟩
    obtain ⟨pool₁, hp₁, hr₁, -⟩ := registration_eq_some.1 hc
    cases hp.symm.trans hp₁
    rw [hr] at hr₁
    cases hr₁
  exact { H.chronicle with
    completed := fun vm s hs hphase => by
      have hgone := H.receipted.stage vm s hs
      rw [hphase] at hgone
      refine ⟨fun hmem => hgone ?_, hgone⟩
      have hhome := H.owned.home vm
      rw [if_pos hmem] at hhome
      exact (H.charged (by omega)).2.2.2
    retrying := fun vm s hs hphase => by
      have hstage := H.receipted.stage vm s hs
      rw [hphase] at hstage
      have := hheld vm (hstage.imp_right fun h => by
        rcases h with h | h <;> rw [h] <;> exact decide_eq_true rfl)
      exact ⟨this.1, this.2, hstage⟩
    held := hheld
    conserved := H.chronicle.queued
    once := fun vm => by
      rw [H.chronicle.queued, H.chronicle.completed]
      by_cases hpos : 0 < w.homes vm
      · obtain ⟨hone, -, -, hmem⟩ := H.charged hpos
        rw [H.receipted.open_of_mem hmem, Bool.toNat_false]
        have hserves : (w.worker.serves vm).toNat ≤ (w.worker.houses vm).toNat := by
          by_cases h : (w.worker.houses vm).toNat < w.homes vm
          · rw [H.not_serves h]
            exact Nat.zero_le _
          · have := Bool.toNat_le (w.worker.serves vm)
            omega
        rw [homes] at hone
        omega
      · rw [homes] at hpos
        have hrunning : (w.worker.serves vm).toNat +
            ((w.receipts.lookup vm).any (·.phase = .completed)).toNat ≤ 1 := by
          cases hs : w.worker.serves vm with
          | false =>
            rw [Bool.toNat_false, Nat.zero_add]
            exact Bool.toNat_le _
          | true =>
            have hhouses : w.worker.houses vm = false := by
              cases hh : w.worker.houses vm with
              | false => rfl
              | true =>
                rw [hh, Bool.toNat_true] at hpos
                omega
            have hruns : w.worker.runs vm = true := by
              revert hs hhouses
              cases w.worker <;> simp [RetirementWorker.serves, RetirementWorker.houses,
                RetirementWorker.runs]
            have := H.receipted.running vm hruns
            cases hsnap : w.receipts.lookup vm with
            | none =>
              rw [hsnap] at this
              cases this
            | some s =>
              rw [hsnap, Option.any_some] at this
              rw [Option.any_some, of_decide_eq_true this]
              decide
        omega
    receipt := H.chronicle.completed
    drained := fun p pool hp hr => by
      refine ⟨?_, fun vm r h e => ?_, fun k l vm hl h e => ?_, fun vm h => ?_⟩
      · obtain ⟨pool₁, hp₁, hshut⟩ := H.orderly.closing p pool hp (H.orderly.released p pool hp hr)
        cases hp.symm.trans hp₁
        exact hshut
      · exact hseat hp hr (e ▸ H.seated.resident vm r h)
      · exact hseat hp hr (e ▸ H.seated.lease k l vm hl h)
      · exact hseat hp hr (H.seated.worker vm p h)
    guarantee := fun group policy => by
      rw [H.seated.registered]
      refine exists_congr fun p => ?_
      rw [registration_eq_some]
      refine exists_congr fun pool => and_congr_right fun _ => and_congr_right fun _ => ?_
      rw [Prod.mk.injEq]
    awaited := fun p pool hp hclosing hr hfree =>
      H.awaited p pool (pool.group, pool.policy) hp hclosing
        (registration_eq_some.2 ⟨pool, hp, hr, rfl⟩) hfree }

/-- In every run, capacity is kept until real destruction; and where `poll_closed` never finds the
manager closing before its pools are, it returns true only when nothing is resident, and the worker stays
as long as something is. -/
theorem retirement_keeps_capacity (config : ParentConfig) (acts : List PoolAct) :
    ∃ w, (new config).run acts = .ok w ∧ w.Kept ∧ ((new config).Punctual acts →
      (∀ n, .reportedClosed n ∈ w.log → n = 0) ∧ (w.worker = .exited → w.resident = 0)) := by
  obtain ⟨w, h, H, hS⟩ := (Inv.new config).run acts
  refine ⟨w, h, H.kept, fun hp => ?_⟩
  have S := hS hp (.new config)
  exact ⟨S.reported, fun hexit => vacant_iff.1 (S.stopping (S.exited hexit)).2⟩

/-- A machine is built, kept idle and retired by the close of its pool before `poll_closed` is called. -/
def drained : List PoolAct :=
  [.createPool "tools" .dedicated none, .prepare 0 false true, .initializeLease 0, .allocated 0 true,
    .finish 0, .requestClose] ++ replicate 6 (.turn 1) ++ replicate 8 (.work (.ok ())) ++
    [.pollClosed, .turn 2, .turn 2, .work (.ok ()), .turn 2]

theorem drained_reports_closed : (new .small).Punctual drained ∧ ∃ w, (new .small).run drained = .ok w ∧
    .reportedClosed 0 ∈ w.log ∧ w.worker = .exited ∧ w.resident = 0 := by
  have hpunctual : (new .small).Punctual drained := by decide +kernel
  obtain ⟨v, hv, hlog, hexit⟩ : ∃ v, (new .small).run drained = .ok v ∧
      .reportedClosed 0 ∈ v.log ∧ v.worker = .exited := ⟨_, rfl, by decide +kernel⟩
  obtain ⟨w, hrun, -, hreport⟩ := retirement_keeps_capacity .small drained
  obtain rfl : w = v := Except.ok.inj (hrun.symm.trans hv)
  exact ⟨hpunctual, w, hrun, hlog, hexit, (hreport hpunctual).2 hexit⟩

/-- `request_close` is on its way to the pool while `poll_closed` reads no resident; a machine is reserved
before the worker is asked to stop. -/
def early : List PoolAct :=
  [.createPool "tools" .dedicated none, .requestClose, .pollClosed, .turn 1, .prepare 0 false true, .turn 1,
    .work (.ok ()), .turn 1]

theorem reported_with_resident : ∃ w, (new .small).run early = .ok w ∧
    .reportedClosed 1 ∈ w.log ∧ w.resident = 1 ∧ w.worker = .exited := by
  refine ⟨_, rfl, ?_⟩
  decide +kernel

end PoolWorld

end LuaSkills.Embedded.Pools
