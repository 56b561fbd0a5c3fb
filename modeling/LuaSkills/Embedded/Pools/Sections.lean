import LuaSkills.Embedded.Pools.Invariant

/-!
# Sections and the invariant
-/

namespace LuaSkills.Embedded.Pools

open AList List

namespace PoolWorld
variable {w : PoolWorld} {g : PoolGovernor} {k p vm : ℕ} {l : ModuleLease} {holding : Holding}
  {th rest rest' : List PoolAction} {threads threads' : List (List PoolAction)} {t : ℕ} {a : PoolAction}
  {pool pool' : ModulePool}

/-! ## Leases that are written -/

theorem Seated.setLease {reg : ℕ → Option (String × PluginPoolConfig)} {own : ℕ → Option String}
    {groups : AssocMap String PluginPoolConfig} {residents : AssocMap ℕ ResidentModule}
    {leases : AssocMap ℕ ModuleLease} {worker : RetirementWorker}
    (S : Seated reg own groups residents leases worker)
    (hseat : ∀ v, l.holding.reserves v → Seat reg own v l.pool) (hpermit : l.holding.Permitted) :
    Seated reg own groups residents (leases.insert k l) worker := { S with
  lease := fun k' l' v h hr => by
    rcases lookup_of_insert h with ⟨-, rfl⟩ | ⟨-, h⟩
    · exact hseat v hr
    · exact S.lease k' l' v h hr
  permit := forall_insert S.permit hpermit }

theorem Orderly.setLease (O : w.Orderly) (hl : w.leases.lookup k = some l) :
    (w.setLease k l holding).Orderly := { O with
  lease := fun k' hk' => by
    rcases (mem_insert _).1 hk' with rfl | hk'
    · exact O.lease _ (mem_of_lookup hl)
    · exact O.lease k' hk' }

theorem Coming.setLease (hl : w.leases.lookup k = some l) (h : w.Coming p) :
    (w.setLease k l holding).Coming p := by
  refine h.imp_right fun h => h.imp_left ?_
  intro ⟨k', l', hl', hpool⟩
  by_cases hk : k' = k
  · cases hk
    cases hl.symm.trans hl'
    exact ⟨k, _, lookup_insert _, hpool⟩
  · exact ⟨k', l', (lookup_insert_ne hk).trans hl', hpool⟩

/-- A call that leaves reservations and groups alone. -/
theorem Inv.govern (H : w.Inv) (K : Keeps w.governor g) : Inv { w with governor := g } where
  governor := K.moves.config ▸ H.governor.move K.moves.move
  poisoned := K.moves.poisoned.trans H.poisoned
  seated := by
    have howner : groupOf g = groupOf w.governor := funext K.groupOf
    have := H.seated
    rw [← howner, ← K.groups] at this
    exact this
  owned := by
    refine ⟨H.owned.home, fun vm => (H.owned.owner vm).trans ?_⟩
    simp only [K.mem]
  orderly := { H.orderly with }
  receipted := { H.receipted with
    old := fun vm hvm => (H.receipted.old vm hvm).trans_eq K.sequence.symm
    stage := fun vm s hs => (H.receipted.stage vm s hs).imp id id id fun h hmem => h (K.mem.1 hmem)
    gone := fun vm hvm hmem => H.receipted.gone vm hvm (K.mem.1 hmem) }
  chronicle := { H.chronicle with }
  awaited := fun p pool c hp hc hreg hfree =>
    H.awaited p pool c hp hc hreg fun vm hvm => hfree vm ((K.groupOf vm).trans hvm)

theorem Inv.relet (H : w.Inv) (hl : w.leases.lookup k = some l)
    (hreserves : ∀ vm, holding.reserves vm = l.holding.reserves vm)
    (hhouses : ∀ vm, holding.houses vm = l.holding.houses vm) (hpermit : holding.Permitted) :
    (w.setLease k l holding).Inv := { H with
  seated := H.seated.setLease
    (fun vm hr => H.seated.lease k l vm hl ((hreserves vm).symm.trans hr)) hpermit
  owned := by
    have hhomes : ∀ vm, (w.setLease k l holding).homes vm = w.homes vm := by
      intro vm
      simp only [homes, due, setLease]
      rw [countBy_insert, countBy_of_lookup hl, hhouses]
    have hbare : ∀ vm, (w.setLease k l holding).bare vm = w.bare vm := by
      intro vm
      simp only [bare, setLease]
      rw [countBy_insert, countBy_of_lookup hl, hreserves]
    exact ⟨fun vm => (hhomes vm).trans (H.owned.home vm),
      fun vm => by rw [hhomes, hbare]; exact H.owned.owner vm⟩
  orderly := H.orderly.setLease hl
  receipted := { H.receipted with }
  chronicle := { H.chronicle with }
  awaited := fun p pool c hp hc hreg hfree => (H.awaited p pool c hp hc hreg hfree).setLease hl }

/-- The entry of a machine changes, not its pool. -/
theorem Inv.adjust (H : w.Inv) (vm : ℕ) {f : ResidentModule → ResidentModule} (hf : ∀ r, (f r).pool = r.pool) :
    Inv { w with residents := w.residents.adjust vm f } := { H with
  seated := by
    have S := H.seated
    refine { S with resident := fun v r h => ?_ }
    simp only [lookup_adjust_eq] at h
    split at h
    · next hv =>
      obtain ⟨r, hr, rfl⟩ := Option.map_eq_some_iff.1 h
      rw [hf]
      exact S.resident v r (hv ▸ hr)
    · exact S.resident v r h
  owned := ⟨fun v => (H.owned.home v).trans (by simp only [mem_adjust]), H.owned.owner⟩
  orderly := { H.orderly with }
  receipted := ⟨fun v hv => H.receipted.known v (mem_adjust.1 hv), H.receipted.old,
    H.receipted.stage, H.receipted.running, H.receipted.gone⟩
  chronicle := { H.chronicle with } }

/-! ## Frames -/

section
variable {w' : PoolWorld}

/-- Hands that pass a machine on. -/
theorem Owned.of_counts (O : w.Owned) (hhomes : ∀ v, w'.homes v = w.homes v)
    (hbare : ∀ v, w'.bare v = w.bare v) (hresidents : w'.residents = w.residents)
    (hgovernor : w'.governor = w.governor) : w'.Owned where
  home v := by
    rw [hhomes, hresidents]
    exact O.home v
  owner v := by
    rw [hhomes, hbare, hgovernor]
    exact O.owner v

end

/-- What a pool may change by itself: its flags go one way. -/
structure Goes (pool pool' : ModulePool) : Prop where
  group : pool'.group = pool.group
  policy : pool'.policy = pool.policy
  released : pool'.released = pool.released
  closed : pool.closed = true → pool'.closed = true
  alive : pool.alive = false → pool'.alive = false

section
variable (hp : w.pools.lookup p = some pool) (hgoes : Goes pool pool')
include hp hgoes

theorem Goes.registration :
    PoolWorld.registration { w with pools := w.pools.insert p pool' } = w.registration := by
  funext q
  simp only [PoolWorld.registration, lookup_insert_eq]
  split
  · next hq =>
    cases hq
    rw [hp, Option.bind_some, Option.bind_some, hgoes.group, hgoes.policy, hgoes.released]
  · rfl

theorem Goes.shut (h : w.Shut q) : Shut { w with pools := w.pools.insert p pool' } q := by
  obtain ⟨pool₀, hpool, hshut⟩ := h
  by_cases hq : q = p
  · cases hq
    cases hp.symm.trans hpool
    exact ⟨pool', lookup_insert _, hshut.imp hgoes.closed hgoes.alive⟩
  · exact ⟨pool₀, (lookup_insert_ne hq).trans hpool, hshut⟩

theorem Goes.any_released :
    ((w.pools.insert p pool').lookup q).any (·.released) = (w.pools.lookup q).any (·.released) := by
  rw [lookup_insert_eq]
  split
  · next hq =>
    cases hq
    rw [hp]
    exact hgoes.released
  · rfl

theorem Goes.orderly (O : w.Orderly) (hclosing : pool'.closing = true →
      w.Shut p ∨ pool'.closed = true ∨ pool'.alive = false)
    (hmono : pool.closing = true → pool'.closing = true) :
    Orderly { w with pools := w.pools.insert p pool' } := { O with
  pool q hq := by
    rcases (mem_insert _).1 hq with rfl | hq
    · exact O.pool _ (mem_of_lookup hp)
    · exact O.pool q hq
  shut q h := hgoes.shut hp (O.shut q h)
  closing q pool₀ h hc := by
    rcases lookup_of_insert h with ⟨rfl, rfl⟩ | ⟨-, h⟩
    · rcases hclosing hc with h | h
      · exact hgoes.shut hp h
      · exact ⟨pool₀, lookup_insert _, h⟩
    · exact hgoes.shut hp (O.closing q pool₀ h hc)
  released q pool₀ h hr := by
    rcases lookup_of_insert h with ⟨-, rfl⟩ | ⟨-, h⟩
    · exact hmono (O.released p pool hp (hgoes.released ▸ hr))
    · exact O.released q pool₀ h hr }

end

/-! ## Calls -/

/-- `threads'` has the sections `th` more, openings of `close` apart. -/
structure Gains (threads threads' : List (List PoolAction)) (th : List PoolAction) : Prop where
  count : ∀ a, (∀ q, a ≠ .close q) →
    threads'.flatten.count a = threads.flatten.count a + th.count a
  follows : (∀ x ∈ threads, Follows x) → ∀ x ∈ threads', Follows x

theorem Gains.spawn (h : Follows th) : Gains threads (threads ++ [th]) th where
  count a _ := by
    rw [flatten_append, flatten_singleton, count_append]
  follows H x hx := by
    rcases mem_append.1 hx with hx | hx
    · exact H x hx
    · cases mem_singleton.1 hx
      exact h

theorem Gains.close (h : threads[t]? = some (.close p :: rest))
    (hfollows : Follows rest → Follows (th ++ rest)) :
    Gains threads (threads.set t (th ++ rest)) th where
  count a ha := by
    have := count_flatten_set (a := a) (th ++ rest) h
    rw [count_cons_of_ne (ha p).symm, count_append] at this
    omega
  follows H x hx := by
    rcases mem_or_eq_of_mem_set hx with hx | rfl
    · exact H x hx
    · exact hfollows (H _ (mem_of_getElem? h)).2

section
variable (G : Gains w.threads threads' th)
include G

theorem Gains.due (a : PoolAction) (ha : ∀ q, a ≠ .close q) :
    due { w with threads := threads' } a = w.due a + th.count a :=
  G.count a ha

theorem Stage.gain (h : w.Stage vm phase) : Stage { w with threads := threads' } vm phase := by
  refine h.imp (Or.imp_left fun h => ?_) id id id
  rw [G.due (.push vm) nofun]
  omega

theorem Receipted.gain (R : w.Receipted) : Receipted { w with threads := threads' } :=
  ⟨R.known, R.old, fun vm s h => (R.stage vm s h).gain G, R.running, R.gone⟩

theorem Coming.gain (h : w.Coming p) : Coming { w with threads := threads' } p := by
  refine h.imp_left fun h => ?_
  rw [G.due (.releaseIfDrained p) nofun]
  omega

theorem Orderly.gain (O : w.Orderly) (hshut : ∀ p, .setClosing p ∈ th → w.Shut p) :
    Orderly { w with threads := threads' } := { O with
  follows := G.follows O.follows
  shut p hp := by
    rw [G.due (.setClosing p) nofun] at hp
    by_cases h : PoolAction.setClosing p ∈ th
    · exact hshut p h
    · rw [count_eq_zero.2 h] at hp
      exact O.shut p hp }

end

/-- A call that has no machine begins. -/
theorem Inv.spawn (H : w.Inv) (hfollows : Follows th) (hshut : ∀ p, .setClosing p ∈ th → w.Shut p)
    (hpush : ∀ vm, .push vm ∉ th) : (w.spawn th).Inv := by
  have G : Gains w.threads (w.threads ++ [th]) th := .spawn hfollows
  have hhomes : ∀ vm, (w.spawn th).homes vm = w.homes vm := by
    intro vm
    simp only [homes, PoolWorld.spawn]
    rw [G.due (.push vm) nofun, count_eq_zero.2 (hpush vm), Nat.add_zero]
  exact { H with
    owned := by
      refine ⟨fun vm => (hhomes vm).trans (H.owned.home vm), fun vm => ?_⟩
      rw [hhomes]
      exact H.owned.owner vm
    orderly := H.orderly.gain G hshut
    receipted := H.receipted.gain G
    chronicle := { H.chronicle with }
    awaited := fun p pool c hp hc hreg hfree => (H.awaited p pool c hp hc hreg hfree).gain G }

/-- A call goes on, and what it leaves behind is no machine and no release. -/
theorem Inv.pass (H : w.Inv) (h : w.threads[t]? = some (a :: rest')) (hfollows : Follows rest)
    (hpush : ∀ vm, rest.count (.push vm) = (a :: rest').count (.push vm))
    (hrelease : ∀ p, rest.count (.releaseIfDrained p) = (a :: rest').count (.releaseIfDrained p))
    (hset : ∀ p, rest.count (.setClosing p) ≤ (a :: rest').count (.setClosing p)) :
    Inv { w with threads := w.threads.set t rest } := by
  have hcount := fun b => count_flatten_set (a := b) rest h
  have hdue : ∀ b, rest.count b = (a :: rest').count b →
      due { w with threads := w.threads.set t rest } b = w.due b := by
    intro b hb
    have := hcount b
    simp only [due]
    omega
  have hhomes : ∀ vm, homes { w with threads := w.threads.set t rest } vm = w.homes vm := by
    intro vm
    simp only [homes]
    rw [hdue _ (hpush vm)]
  exact { H with
    owned := by
      refine ⟨fun vm => (hhomes vm).trans (H.owned.home vm), fun vm => ?_⟩
      rw [hhomes]
      exact H.owned.owner vm
    orderly := by
      have O := H.orderly
      refine ⟨O.pool, O.lease, fun x hx => ?_, fun p hp => ?_, O.closing, O.released⟩
      · rcases mem_or_eq_of_mem_set hx with hx | rfl
        · exact O.follows x hx
        · exact hfollows
      · refine O.shut p ?_
        have := hcount (.setClosing p)
        have := hset p
        simp only [due] at hp ⊢
        omega
    receipted := by
      have R := H.receipted
      exact ⟨R.known, R.old, fun vm s hs => (R.stage vm s hs).imp
        (Or.imp_left fun h => by rw [hdue _ (hpush vm)]; exact h) id id id, R.running, R.gone⟩
    chronicle := { H.chronicle with }
    awaited := fun p pool c hp hc hreg hfree =>
      (H.awaited p pool c hp hc hreg hfree).imp_left fun h => by rw [hdue _ (hrelease p)]; exact h }

/-! ## Leases -/

section
variable (H : w.Inv) (hl : w.leases.lookup k = some l)
include H hl

/-- The hand that has a reservation without a machine is the only one. -/
theorem Inv.sole (hr : l.holding.reserves vm) : w.homes vm = 0 ∧ vm ∉ w.residents ∧
    (w.leases.erase k).countBy (·.holding.reserves vm) = 0 ∧ w.worker.reserves vm = false := by
  have howner := H.owned.owner vm
  have hhome := H.owned.home vm
  rw [bare, countBy_of_lookup hl, if_pos hr] at howner
  have hone := mark_le_one (c := vm ∈ w.governor.state.allocations)
  refine ⟨by omega, fun hmem => ?_, by omega, Bool.eq_false_iff.2 fun hworker => ?_⟩
  · rw [if_pos hmem] at hhome
    omega
  · rw [hworker, Bool.toNat_true] at howner
    omega

/-- A lease gives a reservation back without a machine. -/
theorem Inv.forsake (hr : l.holding.reserves vm) : ((w.dropReservation vm).setLease k l .nothing).Inv := by
  obtain ⟨hhomes, hres, hbare, hworker⟩ := H.sole hl hr
  have hown : ∀ v c, v ≠ vm → groupOf w.governor v = some c →
      groupOf (w.governor.dropReservation ⟨vm⟩) v = some c := by
    intro v c hv h
    rw [groupOf_dropReservation, if_neg hv, h]
  have hseat : ∀ {v q}, v ≠ vm → Seat w.registration (groupOf w.governor) v q →
      Seat w.registration (groupOf (w.governor.dropReservation ⟨vm⟩)) v q :=
    fun hv ⟨c, hc, h⟩ => ⟨c, hc, hown _ _ hv h⟩
  have hmem : ∀ v, v ∈ (w.governor.dropReservation ⟨vm⟩).state.allocations ↔
      v ≠ vm ∧ v ∈ w.governor.state.allocations := fun v => mem_erase
  have hothers : ∀ k' l', (w.leases.insert k { l with holding := .nothing }).lookup k' = some l' →
      (l'.holding = .nothing ∧ l'.pool = l.pool) ∨ (w.leases.lookup k' = some l' ∧
        l'.holding.reserves vm = false) := by
    intro k' l' h
    rcases lookup_of_insert h with ⟨-, rfl⟩ | ⟨hk, h⟩
    · exact .inl ⟨rfl, rfl⟩
    · refine .inr ⟨h, countBy_eq_zero.1 hbare k' l' ?_⟩
      rw [lookup_erase_eq, if_neg hk, h]
  exact {
    governor := H.governor.move (.release vm)
    poisoned := H.poisoned
    seated := by
      have S := H.seated
      refine ⟨fun v r h => hseat ?_ (S.resident v r h), fun k' l' v h hv => ?_, fun k' l' h => ?_,
        fun v q h => hseat ?_ (S.worker v q h), S.registered, S.unique⟩
      · rintro rfl
        exact hres (mem_of_lookup h)
      · rcases hothers k' l' h with ⟨h, _⟩ | ⟨h, hno⟩
        · rw [h] at hv
          cases hv
        · refine hseat ?_ (S.lease k' l' v h hv)
          rintro rfl
          rw [hv] at hno
          cases hno
      · rcases hothers k' l' h with ⟨h, _⟩ | ⟨h, _⟩
        · rw [h]
          trivial
        · exact S.permit k' l' h
      · rintro rfl
        change w.worker = .unreserving v q at h
        rw [h] at hworker
        simp [RetirementWorker.reserves] at hworker
    owned := by
      have hhouses : ∀ v, l.holding.houses v = false := by
        intro v
        cases hhold : l.holding <;> simp_all [Holding.houses, Holding.reserves]
      have hhomes' : ∀ v, ((w.dropReservation vm).setLease k l .nothing).homes v = w.homes v := by
        intro v
        simp only [homes, due, setLease, dropReservation]
        rw [countBy_insert, countBy_of_lookup hl, hhouses]
        rfl
      refine ⟨fun v => (hhomes' v).trans (H.owned.home v), fun v => ?_⟩
      have howner := H.owned.owner v
      rw [hhomes']
      simp only [bare, setLease, dropReservation, hmem] at howner ⊢
      rw [countBy_of_lookup hl] at howner
      rw [countBy_insert]
      by_cases hv : v = vm
      · subst hv
        simp [hbare, hworker, hhomes]
      · have hother : l.holding.reserves v = false := by
          cases hhold : l.holding <;> simp_all [Holding.reserves]
          all_goals exact fun h => hv h.symm
        rw [hother] at howner
        simp only [ne_eq, hv, not_false_eq_true, true_and]
        exact howner
    orderly := { (H.orderly.setLease hl : (w.setLease k l .nothing).Orderly) with }
    receipted := by
      have R := H.receipted
      exact ⟨R.known, R.old, fun v s hs => (R.stage v s hs).imp id id id fun h hm => h ((hmem v).1 hm).2,
        R.running, fun v hv h => R.gone v hv ((hmem v).1 h).2⟩
    chronicle := { H.chronicle with }
    awaited := by
      intro p pool c hp hc hreg hfree
      have hmine : ((w.dropReservation vm).setLease k l .nothing).Coming l.pool :=
        .inr (.inl ⟨k, _, lookup_insert _, rfl⟩)
      by_cases hvm : groupOf w.governor vm = some c.1
      · obtain ⟨d, hd, hgroup⟩ := H.seated.lease k l vm hl hr
        have := H.seated.unique p l.pool c d hreg hd (Option.some.inj (hvm.symm.trans hgroup))
        exact this ▸ hmine
      · refine Coming.setLease (w := w.dropReservation vm) hl (H.awaited p pool c hp hc hreg fun v hv => ?_)
        exact hfree v (hown v c.1 (fun e => hvm (e ▸ hv)) hv) }

end

/-- An empty lease goes away while the registration will still be looked at. -/
theorem Inv.dismiss (H : w.Inv) (hl : w.leases.lookup k = some l) (hempty : l.holding = .nothing)
    (hdue : 0 < w.due (.releaseIfDrained l.pool)) : Inv { w with leases := w.leases.erase k } := { H with
  seated := by
    have S := H.seated
    refine { S with lease := fun k' l' v h => ?_, permit := fun k' l' h => ?_ }
    · exact S.lease k' l' v (lookup_of_erase h).2
    · exact S.permit k' l' (lookup_of_erase h).2
  owned := by
    refine H.owned.of_counts (fun v => ?_) (fun v => ?_) rfl rfl
    · simp only [homes, due]
      rw [countBy_of_lookup (m := w.leases) hl, hempty]
      rfl
    · simp only [bare]
      rw [countBy_of_lookup (m := w.leases) hl, hempty]
      rfl
  orderly := by
    have O := H.orderly
    exact { O with lease := fun k' hk' => O.lease k' (mem_erase.1 hk').2 }
  receipted := { H.receipted with }
  chronicle := { H.chronicle with }
  awaited := fun q pool c hq hc hreg hfree => by
    rcases H.awaited q pool c hq hc hreg hfree with h | ⟨k', l', hl', hpool⟩ | h
    · exact .inl h
    · by_cases hk : k' = k
      · cases hk
        cases hl.symm.trans hl'
        exact .inl (hpool ▸ hdue)
      · exact .inr (.inl ⟨k', l', (lookup_erase_ne hk).trans hl', hpool⟩)
    · exact .inr (.inr h) }

section
variable (H : w.Inv) (hl : w.leases.lookup k = some l) (hhold : l.holding = .resident vm)
include H hl hhold

/-- The lease of a machine is emptied; `hhomes` says where the machine goes. -/
theorem Inv.vacate {pools : AssocMap ℕ ModulePool} (threads : List (List PoolAction)) (hhomes : ∀ v,
      homes { w with leases := w.leases.insert k { l with holding := .nothing }, pools, threads } v =
        w.homes v)
    (hregistration : registration { w with pools } = w.registration)
    (horderly : Orderly { w with pools, threads })
    (hreceipted : Receipted { w with threads })
    (hreleased : ∀ q, (pools.lookup q).any (·.released) = (w.pools.lookup q).any (·.released))
    (hclosing : ∀ q pool, pools.lookup q = some pool → pool.closing = true →
      ∃ pool, w.pools.lookup q = some pool ∧ pool.closing = true)
    (hcoming : ∀ q, w.Coming q → Coming { w with threads } q) :
    Inv { w with leases := w.leases.insert k { l with holding := .nothing }, pools, threads } := { H with
  seated := by
    have S := H.seated
    rw [← hregistration] at S
    exact S.setLease nofun trivial
  owned := by
    refine H.owned.of_counts hhomes (fun v => ?_) rfl rfl
    simp only [bare]
    rw [countBy_insert, countBy_of_lookup hl, hhold]
    rfl
  orderly := { (horderly.setLease hl : (setLease { w with pools, threads } k l .nothing).Orderly) with }
  receipted := { hreceipted with }
  chronicle := ⟨H.chronicle.queued, H.chronicle.completed,
    fun q => (H.chronicle.released q).trans (by rw [hreleased]), H.chronicle.failed⟩
  awaited := fun q pool c hq hc hreg hfree => by
    obtain ⟨pool₀, hq₀, hc₀⟩ := hclosing q pool hq hc
    have hreg₀ : w.registration q = some c := by rw [← hregistration]; exact hreg
    exact Coming.setLease (w := { w with threads }) hl
      (hcoming q (H.awaited q pool₀ c hq₀ hc₀ hreg₀ hfree)) }

/-- The machine of a lease goes to its retirement. -/
theorem Inv.handOver (hpush : ∀ v, th.count (.push v) = if vm = v then 1 else 0)
    (hfollows : Follows th) (hshut : ∀ q, .setClosing q ∉ th) :
    ((w.setLease k l .nothing).spawn th).Inv := by
  have G : Gains w.threads (w.threads ++ [th]) th := .spawn hfollows
  refine H.vacate hl hhold _ (fun v => ?_) rfl (H.orderly.gain G fun q h => absurd h (hshut q))
    (H.receipted.gain G) (fun _ => rfl) (fun q pool h hc => ⟨pool, h, hc⟩) fun q h => h.gain G
  have hdue := G.due (.push v) nofun
  simp only [due] at hdue
  simp only [homes, due, setLease]
  rw [countBy_insert, countBy_of_lookup (m := w.leases) hl, hhold, hdue, hpush]
  simp only [Holding.houses_nothing, Holding.houses_resident, decide_eq_true_eq, Bool.false_eq_true,
    if_false]
  omega

/-- The machine of a lease goes back to its pool. -/
theorem Inv.shelve (hp : w.pools.lookup p = some pool) :
    ((w.setLease k l .nothing).setPool p { pool with idle := pool.idle ++ [vm] }).Inv := by
  have hgoes : Goes pool { pool with idle := pool.idle ++ [vm] } := ⟨rfl, rfl, rfl, id, id⟩
  refine H.vacate hl hhold w.threads (fun v => ?_) (hgoes.registration hp)
    (hgoes.orderly hp H.orderly (fun hc => .inl (H.orderly.closing p pool hp hc)) id)
    { H.receipted with }
    (fun _ => hgoes.any_released hp) (fun q pool' h hc => ?_) fun _ h => h
  · simp only [homes, due, setLease]
    rw [countBy_insert, countBy_of_lookup (m := w.leases) hl, hhold, sumBy_insert,
      sumBy_of_lookup (m := w.pools) hp, count_append, count_singleton]
    simp only [Holding.houses_nothing, Holding.houses_resident, decide_eq_true_eq, beq_iff_eq,
      Bool.false_eq_true, if_false]
    omega
  · rcases lookup_of_insert h with ⟨rfl, rfl⟩ | ⟨-, h⟩
    · exact ⟨pool, hp, hc⟩
    · exact ⟨pool', h, hc⟩

end

end PoolWorld

end LuaSkills.Embedded.Pools
