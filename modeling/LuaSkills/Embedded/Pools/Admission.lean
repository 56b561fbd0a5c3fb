import LuaSkills.Embedded.Pools.Sections

/-!
# Machines that come and go

New pools, reservations and machines, leases of idle machines, and machines a pool gives away.
-/

namespace LuaSkills.Embedded.Pools

open AList List

variable {pinned : Bool}

namespace PoolWorld
variable {w : PoolWorld} {g : PoolGovernor} {k p vm : ℕ} {l : ModuleLease}
  {th : List PoolAction} {threads : List (List PoolAction)} {pool pool' : ModulePool}

theorem Coming.openLease (O : w.Orderly) (h : w.Coming q) : (w.openLease p pinned holding).Coming q := by
  refine h.imp_right fun h => h.imp_left fun ⟨k, l, hl, hpool⟩ => ⟨k, l, ?_, hpool⟩
  have hne : k ≠ w.nextLease := (O.lease k (mem_of_lookup hl)).ne
  exact (lookup_insert_ne hne).trans hl

theorem Orderly.openLease (O : w.Orderly) : (w.openLease p pinned holding).Orderly := by
  refine { O with lease := fun k hk => ?_ }
  rcases (mem_insert _).1 hk with rfl | hk
  · exact Nat.lt_succ_self _
  · exact Nat.lt_succ_of_lt (O.lease k hk)

theorem Orderly.nextLease (O : w.Orderly) : w.nextLease ∉ w.leases :=
  fun h => Nat.lt_irrefl _ (O.lease _ h)

/-! ## Idle machines -/

theorem Inv.lend (H : w.Inv) (hp : w.pools.lookup p = some pool)
    (hlast : pool.idle.getLast? = some vm) :
    ((w.setPool p { pool with idle := pool.idle.dropLast }).openLease p pinned (.resident vm)).Inv := by
  have hgoes : Goes pool { pool with idle := pool.idle.dropLast } := ⟨rfl, rfl, rfl, id, id⟩
  have hreg := hgoes.registration hp
  have hidle : pool.idle = pool.idle.dropLast ++ [vm] :=
    (dropLast_append_getLast? vm hlast).symm
  have O := hgoes.orderly hp H.orderly (fun hc => .inl (H.orderly.closing p pool hp hc)) id
  exact { H with
    seated := by
      have S := H.seated
      rw [← hreg] at S
      exact S.setLease nofun trivial
    owned := by
      refine H.owned.of_counts (fun v => ?_) (fun v => ?_) rfl rfl
      · have hcount := congrArg (count v) hidle
        rw [count_append, count_singleton] at hcount
        simp only [homes, due, openLease, setPool]
        rw [countBy_insert_of_notMem H.orderly.nextLease, sumBy_insert,
          sumBy_of_lookup (m := w.pools) hp]
        simp only [Holding.houses_resident, decide_eq_true_eq, beq_iff_eq] at hcount ⊢
        omega
      · simp only [bare, openLease, setPool]
        rw [countBy_insert_of_notMem H.orderly.nextLease]
        rfl
    orderly := O.openLease
    receipted := { H.receipted with }
    chronicle := ⟨H.chronicle.queued, H.chronicle.completed,
      fun q => (H.chronicle.released q).trans (by rw [← hgoes.any_released hp]; rfl), H.chronicle.failed⟩
    awaited := fun q pool₁ c hq hc hr hfree => by
      have hold : ∃ pool, w.pools.lookup q = some pool ∧ pool.closing = true := by
        rcases lookup_of_insert hq with ⟨rfl, rfl⟩ | ⟨-, hq⟩
        · exact ⟨pool, hp, hc⟩
        · exact ⟨pool₁, hq, hc⟩
      obtain ⟨pool₀, hq₀, hc₀⟩ := hold
      have hr₀ : w.registration q = some c := by rw [← hreg]; exact hr
      exact Coming.openLease (w := w.setPool p _) O (H.awaited q pool₀ c hq₀ hc₀ hr₀ hfree) }

/-- A pool gives idle machines to their retirement. -/
theorem Inv.unload (H : w.Inv) (hp : w.pools.lookup p = some pool) (hgoes : Goes pool pool')
    (hclosing : pool'.closing = pool.closing) (G : Gains w.threads threads th)
    (hidle : ∀ v, pool'.idle.count v + th.count (.push v) = pool.idle.count v)
    (hshut : ∀ q, .setClosing q ∈ th → Shut { w with pools := w.pools.insert p pool' } q) :
    Inv { w with pools := w.pools.insert p pool', threads } := { H with
  seated := by
    have S := H.seated
    rw [← hgoes.registration hp] at S
    exact S
  owned := by
    refine H.owned.of_counts (fun v => ?_) (fun _ => rfl) rfl rfl
    have hdue := G.due (.push v) nofun
    have := hidle v
    simp only [due] at hdue
    simp only [homes, due]
    rw [sumBy_insert, sumBy_of_lookup (m := w.pools) hp, hdue]
    omega
  orderly := by
    refine Orderly.gain (w := { w with pools := w.pools.insert p pool' }) G
      (hgoes.orderly hp H.orderly (fun hc => ?_) fun hc => hclosing.trans hc) hshut
    exact .inl (H.orderly.closing p pool hp (hclosing.symm.trans hc))
  receipted :=
    have R := H.receipted.gain G
    ⟨R.known, R.old, R.stage, R.running, R.gone⟩
  chronicle := ⟨H.chronicle.queued, H.chronicle.completed,
    fun q => (H.chronicle.released q).trans (by rw [← hgoes.any_released hp]), H.chronicle.failed⟩
  awaited := fun q pool₁ c hq hc hr hfree => by
    have hold : ∃ pool, w.pools.lookup q = some pool ∧ pool.closing = true := by
      rcases lookup_of_insert hq with ⟨rfl, rfl⟩ | ⟨-, hq⟩
      · exact ⟨pool, hp, hclosing.symm.trans hc⟩
      · exact ⟨pool₁, hq, hc⟩
    obtain ⟨pool₀, hq₀, hc₀⟩ := hold
    have hr₀ : w.registration q = some c := by rw [← hgoes.registration hp]; exact hr
    exact (H.awaited q pool₀ c hq₀ hc₀ hr₀ hfree).gain G }

/-! ## Reservations -/

theorem Seat.mono (h : Seat reg own vm p) (hown : ∀ c, own vm = some c → own' vm = some c) :
    Seat reg own' vm p := by
  obtain ⟨c, hc, hvm⟩ := h
  exact ⟨c, hc, hown c.1 hvm⟩

/-- A reservation comes into a new lease. -/
theorem Inv.reserve (H : w.Inv) (hreg : w.registration p = some (pool.group, pool.policy))
    (h : w.governor.reserve pool.group = .ok (g, r)) :
    (({ w with governor := g } : PoolWorld).openLease p pinned (.pending r.id)).Inv := by
  obtain ⟨M, hid, hseq, hgroups, hown⟩ := reserve_spec h
  have hnew : r.id ∉ w.governor.state.allocations := by
    intro hmem
    obtain ⟨a, ha⟩ := mem_iff_lookup.1 hmem
    have := (H.governor.allocation ha).2
    omega
  have hkeep : ∀ v c, groupOf w.governor v = some c → groupOf g v = some c := by
    intro v c hv
    rw [hown, if_neg, hv]
    rintro rfl
    exact hnew (mem_of_groupOf hv)
  have hmem : ∀ v, v ∈ g.state.allocations ↔ v = r.id ∨ v ∈ w.governor.state.allocations := by
    intro v
    rw [← groupOf_isSome, hown, ← groupOf_isSome]
    split
    · next hv => simp [hv]
    · next hv => simp [hv]
  exact {
    governor := M.config ▸ H.governor.move M.move
    poisoned := M.poisoned.trans H.poisoned
    seated := by
      have S := H.seated
      have S' : Seated w.registration (groupOf g) g.state.groups w.residents w.leases w.worker :=
        ⟨fun v r hv => (S.resident v r hv).mono (hkeep v), fun k' l' v h hr => (S.lease k' l' v h hr).mono (hkeep v),
          S.permit, fun v q hw => (S.worker v q hw).mono (hkeep v), hgroups ▸ S.registered, S.unique⟩
      refine S'.setLease (fun v hr => ?_) trivial
      obtain rfl : r.id = v := of_decide_eq_true hr
      exact ⟨_, hreg, (hown r.id).trans (if_pos rfl)⟩
    owned := by
      have hhomes : ∀ v, (({ w with governor := g } : PoolWorld).openLease p pinned
          (.pending r.id)).homes v = w.homes v := by
        intro v
        simp only [homes, due, openLease]
        rw [countBy_insert_of_notMem H.orderly.nextLease]
        rfl
      refine ⟨fun v => (hhomes v).trans (H.owned.home v), fun v => ?_⟩
      have howner := H.owned.owner v
      rw [hhomes]
      simp only [bare, openLease, hmem] at howner ⊢
      rw [countBy_insert_of_notMem H.orderly.nextLease]
      simp only [Holding.reserves_pending, decide_eq_true_eq]
      by_cases hv : v = r.id
      · subst hv
        rw [if_neg hnew] at howner
        rw [if_pos rfl, if_pos (.inl rfl)]
        omega
      · rw [if_neg (fun e => hv e.symm), Nat.add_zero, howner]
        simp only [hv, false_or]
    orderly := by
      have O : (w.openLease p pinned (.pending r.id)).Orderly := H.orderly.openLease
      exact { O with }
    receipted := by
      have R := H.receipted
      have hfresh : ∀ v ∈ w.receipts, v ≠ r.id := by
        intro v hv e
        have := R.old v hv
        omega
      refine ⟨R.known, fun v hv => ?_, fun v s hs => (R.stage v s hs).imp id id id fun h hm => ?_,
        R.running, fun v hv hm => ?_⟩
      · exact (R.old v hv).trans (by change w.governor.state.sequence ≤ g.state.sequence; omega)
      · rcases (hmem v).1 hm with hv | hm
        · exact hfresh v (mem_of_lookup hs) hv
        · exact h hm
      · rcases (hmem v).1 hm with e | hm
        · have hruns : w.worker.runs v := by
            change w.worker.finishes v at hv
            cases hwork : w.worker <;> rw [hwork] at hv <;> first | exact hv | cases hv
          cases hs : w.receipts.lookup v with
          | none =>
            have := R.running v hruns
            rw [hs] at this
            cases this
          | some s => exact hfresh v (mem_of_lookup hs) e
        · exact R.gone v hv hm
    chronicle := { H.chronicle with }
    awaited := fun q pool₁ c hq hc hr hfree =>
      Coming.openLease (w := { w with governor := g }) { H.orderly with }
        (H.awaited q pool₁ c hq hc hr fun v hv => hfree v (hkeep v c.1 hv)) }

/-- The machine of a reservation was built. -/
theorem Inv.build (H : w.Inv) (hl : w.leases.lookup k = some l) (hhold : l.holding = .allocating vm permit) :
    (({ w with
      residents := w.residents.insert vm ⟨l.pool, 0, true⟩
      receipts := w.receipts.insert vm .new } : PoolWorld).setLease k l (.resident vm)).Inv := by
  have hr : l.holding.reserves vm := by rw [hhold]; exact decide_eq_true rfl
  obtain ⟨hhomes, hres, hbare, hworker⟩ := H.sole hl hr
  have hseat := H.seated.lease k l vm hl hr
  have hmem : vm ∈ w.governor.state.allocations := by
    obtain ⟨c, -, hvm⟩ := hseat
    exact mem_of_groupOf hvm
  have hruns : w.worker.runs vm = false := by
    have hhouses : w.worker.houses vm = false := by
      rw [homes] at hhomes
      cases hh : w.worker.houses vm
      · rfl
      · rw [hh, Bool.toNat_true] at hhomes
        omega
    have hfinishes : w.worker.finishes vm = false :=
      Bool.eq_false_iff.2 fun h => H.receipted.gone vm h hmem
    cases hw : w.worker <;> rw [hw] at hhouses hfinishes hworker <;> first | rfl | assumption
  exact { H with
    seated := by
      have S := H.seated
      exact { S.setLease (l := { l with holding := .resident vm }) (by rintro _ ⟨⟩) trivial with
        resident := forall_insert S.resident hseat }
    owned := by
      have hcounts : ∀ v,
          (({ w with
            residents := w.residents.insert vm ⟨l.pool, 0, true⟩
            receipts := w.receipts.insert vm .new } : PoolWorld).setLease k l (.resident vm)).homes v =
              w.homes v + (if vm = v then 1 else 0) ∧
          (({ w with
            residents := w.residents.insert vm ⟨l.pool, 0, true⟩
            receipts := w.receipts.insert vm .new } : PoolWorld).setLease k l (.resident vm)).bare v +
              (if vm = v then 1 else 0) = w.bare v := by
        intro v
        constructor
        · simp only [homes, due, setLease]
          rw [countBy_insert, countBy_of_lookup (m := w.leases) hl, hhold]
          simp only [Holding.houses_resident, Holding.houses_allocating, decide_eq_true_eq,
            Bool.false_eq_true, if_false]
          omega
        · simp only [bare, setLease]
          rw [countBy_insert, countBy_of_lookup (m := w.leases) hl, hhold]
          simp only [Holding.reserves_resident, Holding.reserves_allocating, decide_eq_true_eq,
            Bool.false_eq_true, if_false]
          omega
      refine ⟨fun v => ?_, fun v => ?_⟩
      · rw [(hcounts v).1, H.owned.home]
        simp only [setLease, mem_insert]
        by_cases hv : v = vm
        · subst hv
          rw [if_neg hres, if_pos rfl, if_pos (.inl rfl)]
        · rw [if_neg (c := vm = v) fun h => hv h.symm, Nat.add_zero]
          simp only [hv, false_or]
      · have := H.owned.owner v
        have hc := hcounts v
        exact Eq.trans (by omega) this
    orderly := { (H.orderly.setLease hl : (w.setLease k l (.resident vm)).Orderly) with }
    receipted := by
      have R := H.receipted
      refine ⟨fun v hv => ?_, fun v hv => ?_, fun v s hs => ?_, fun v hv => ?_, R.gone⟩
      · rcases (mem_insert _).1 hv with rfl | hv
        · exact (mem_insert _).2 (.inl rfl)
        · exact (mem_insert _).2 (.inr (R.known v hv))
      · rcases (mem_insert _).1 hv with rfl | hv
        · obtain ⟨a, ha⟩ := mem_iff_lookup.1 hmem
          exact (H.governor.allocation ha).2
        · exact R.old v hv
      · rcases lookup_of_insert hs with ⟨-, rfl⟩ | ⟨-, hs⟩
        · trivial
        · exact R.stage v s hs
      · have hne : v ≠ vm := by
          rintro rfl
          change w.worker.runs v at hv
          rw [hruns] at hv
          cases hv
        simp only [setLease]
        rw [lookup_insert_ne hne]
        exact R.running v hv
    chronicle := by
      have C := H.chronicle
      refine ⟨C.queued, fun v => (C.completed v).trans ?_, C.released, C.failed⟩
      simp only [setLease, lookup_insert_eq]
      by_cases hv : v = vm
      · subst hv
        rw [H.receipted.open_of_mem hmem, if_pos rfl]
        rfl
      · rw [if_neg hv]
    awaited := fun q pool c hq hc hreg hfree => (H.awaited q pool c hq hc hreg hfree).setLease hl }

/-! ## Registration -/

/-- A pool is registered. -/
theorem Inv.register {registered : List ℕ} (H : w.Inv)
    (h : w.governor.registerGroupInternal group policy capacityId = .ok g) : Inv { w with
      governor := g
      pools := w.pools.insert w.nextPool ⟨group, policy, true, false, [], false, false⟩
      nextPool := w.nextPool + 1
      registered } := by
  obtain ⟨M, hnew, hgroups, hseq, hown⟩ := registerGroup_spec h
  have hfresh : w.nextPool ∉ w.pools := fun h => Nat.lt_irrefl _ (H.orderly.pool _ h)
  have hmem : ∀ v, v ∈ g.state.allocations ↔ v ∈ w.governor.state.allocations := by
    intro v
    rw [← groupOf_isSome, hown, groupOf_isSome]
  let w' : PoolWorld := { w with
    governor := g
    pools := w.pools.insert w.nextPool ⟨group, policy, true, false, [], false, false⟩
    nextPool := w.nextPool + 1
    registered }
  have hreg : ∀ q, w'.registration q =
      if q = w.nextPool then some (group, policy) else w.registration q := by
    intro q
    simp only [w', registration, lookup_insert_eq]
    split
    · rfl
    · rfl
  have hnone : w.registration w.nextPool = none := by
    rw [registration, lookup_eq_none.2 hfresh]
    rfl
  have hkeep : ∀ q c, w.registration q = some c → w'.registration q = some c := by
    intro q c hq
    rw [hreg, if_neg, hq]
    rintro rfl
    rw [hnone] at hq
    cases hq
  have hold : ∀ q c, w.registration q = some c → c.1 ≠ group := by
    rintro q ⟨group', policy'⟩ hq rfl
    exact hnew (mem_of_lookup ((H.seated.registered _ _).2 ⟨q, hq⟩))
  have hseat : ∀ {v q}, Seat w.registration (groupOf w.governor) v q →
      Seat w'.registration (groupOf g) v q := by
    rintro v q ⟨c, hc, hvm⟩
    exact ⟨c, hkeep _ c hc, (hown _).trans hvm⟩
  have hshut : ∀ {q}, w.Shut q → w'.Shut q := by
    rintro q ⟨pool, hpool, h⟩
    refine ⟨pool, (lookup_insert_ne ?_).trans hpool, h⟩
    rintro rfl
    exact hfresh (mem_of_lookup hpool)
  have hlookup : ∀ q pool, w'.pools.lookup q = some pool → pool.closing = true ∨ pool.released = true →
      w.pools.lookup q = some pool := by
    intro q pool hq hflag
    rcases lookup_of_insert hq with ⟨-, rfl⟩ | ⟨-, hq⟩
    · rcases hflag with h | h <;> cases h
    · exact hq
  exact {
    governor := M.config ▸ H.governor.move M.move
    poisoned := M.poisoned.trans H.poisoned
    seated := by
      have S := H.seated
      refine ⟨fun v r h => hseat (S.resident v r h), fun k l v h hr => hseat (S.lease k l v h hr),
        S.permit, fun v q h => hseat (S.worker v q h), fun group' policy' => ?_,
        fun q₁ q₂ c d h₁ h₂ he => ?_⟩
      · change g.state.groups.lookup group' = some policy' ↔ _
        rw [hgroups, lookup_insert_eq]
        constructor
        · intro hg
          split at hg
          · next e =>
            cases hg
            exact ⟨w.nextPool, by rw [e]; exact (hreg _).trans (if_pos rfl)⟩
          · obtain ⟨q, hq⟩ := (S.registered group' policy').1 hg
            exact ⟨q, hkeep q _ hq⟩
        · rintro ⟨q, hq⟩
          rw [hreg] at hq
          split at hq
          · cases hq
            exact if_pos rfl
          · rw [if_neg (hold q _ hq)]
            exact (S.registered group' policy').2 ⟨q, hq⟩
      · rw [hreg] at h₁ h₂
        split at h₁ <;> split at h₂
        · next e₁ e₂ => exact e₁.trans e₂.symm
        · cases h₁
          exact absurd he.symm (hold _ _ h₂)
        · cases h₂
          exact absurd he (hold _ _ h₁)
        · exact S.unique q₁ q₂ c d h₁ h₂ he
    owned := by
      have hhomes : ∀ v, w'.homes v = w.homes v := by
        intro v
        simp only [w', homes, due]
        rw [sumBy_insert, erase_of_notMem hfresh, count_nil, Nat.zero_add]
      refine ⟨fun v => (hhomes v).trans (H.owned.home v), fun v => ?_⟩
      have := H.owned.owner v
      simp only [← hmem] at this
      rw [hhomes]
      exact this
    orderly := by
      have O := H.orderly
      refine ⟨fun q hq => ?_, O.lease, O.follows, fun q h => hshut (O.shut q h), fun q pool hq hc => ?_,
        fun q pool hq hr => ?_⟩
      · rcases (mem_insert _).1 hq with rfl | hq
        · exact Nat.lt_succ_self _
        · exact Nat.lt_succ_of_lt (O.pool q hq)
      · exact hshut (O.closing q pool (hlookup q pool hq (.inl hc)) hc)
      · exact O.released q pool (hlookup q pool hq (.inr hr)) hr
    receipted := by
      have R := H.receipted
      exact ⟨R.known, fun v hv => (R.old v hv).trans_eq hseq.symm,
        fun v s hs => (R.stage v s hs).imp id id id fun h hm => h ((hmem v).1 hm), R.running,
        fun v hv hm => R.gone v hv ((hmem v).1 hm)⟩
    chronicle := by
      have C := H.chronicle
      refine ⟨C.queued, C.completed, fun q => (C.released q).trans ?_, C.failed⟩
      rw [lookup_insert_eq]
      by_cases hq : q = w.nextPool
      · subst hq
        rw [if_pos rfl, lookup_eq_none.2 hfresh]
        rfl
      · rw [if_neg hq]
    awaited := fun q pool c hq hc hr hfree => by
      have hq₀ := hlookup q pool hq (.inl hc)
      have hne : q ≠ w.nextPool := by
        rintro rfl
        exact hfresh (mem_of_lookup hq₀)
      have hr₀ : w.registration q = some c := by
        rw [← hr]
        exact ((hreg q).trans (if_neg hne)).symm
      exact H.awaited q pool c hq₀ hc hr₀ fun v hv => hfree v ((hown v).trans hv) }

end PoolWorld

end LuaSkills.Embedded.Pools
