import LuaSkills.Embedded.Pools.Retirement

/-!
# The retirement worker
-/

namespace LuaSkills.Embedded.Pools

open AList List

variable {worker₀ : RetirementWorker}

namespace PoolWorld
variable {w : PoolWorld} {p vm : ℕ} {pending : List ℕ} {worker : RetirementWorker}
  {code : EmbeddedErrorCode} {phase : ModuleRetirementPhase} {error : Option EmbeddedErrorCode}

/-- A stage of the worker that leaves machines and reservations in their hands. -/
theorem Inv.proceed {receipts : AssocMap ℕ ModuleRetirementSnapshot}
    {log : List PoolEvent} (H : w.Inv) (hworker : w.worker = worker₀)
    (hhouses : ∀ v, pending.count v + (worker.houses v).toNat =
      w.pending.count v + (worker₀.houses v).toNat)
    (hreserves : ∀ v, worker.reserves v = worker₀.reserves v)
    (hunreserving : ∀ v q, worker ≠ .unreserving v q)
    (hsettles : ∀ v q, worker₀ = .deregistering v q → w.Settles q)
    (hreceipted : Receipted { w with receipts, pending, worker })
    (hchronicle : Chronicle { w with receipts, pending, worker, log }) :
    Inv { w with receipts, pending, worker, log } := { H with
  seated := { H.seated with worker := fun v q h => absurd h (hunreserving v q) }
  owned := by
    refine H.owned.of_counts (fun v => ?_) (fun v => ?_) rfl rfl
    · have := hhouses v
      simp only [homes, due, hworker]
      omega
    · simp only [bare, hreserves, hworker]
  orderly := { H.orderly with }
  receipted := { hreceipted with }
  chronicle := hchronicle
  awaited := fun q pool c hq hc hreg hfree => by
    rcases H.awaited q pool c hq hc hreg hfree with h | h | ⟨v, h⟩
    · exact .inl h
    · exact .inr (.inl h)
    · obtain ⟨v, hv⟩ := hsettles v q (hworker.symm.trans h) pool c hq hc hreg
      exact absurd hv (hfree v) }

/-- The worker passes machines on and writes no receipt. -/
theorem Receipted.proceed (R : w.Receipted) (hworker : w.worker = worker₀)
    (hruns : ∀ v, worker.runs v = worker₀.runs v)
    (hfinishes : ∀ v, worker.finishes v = worker₀.finishes v)
    (hqueued : ∀ v, v ∈ w.pending ∨ worker₀ = .popped v → v ∈ pending ∨ worker = .popped v)
    (hretrying : ∀ v, v ∈ w.pending ∨ worker₀ = .popped v ∨ worker₀ = .requeueing v →
      v ∈ pending ∨ worker = .popped v ∨ worker = .requeueing v) :
    Receipted { w with pending, worker } := by
  refine ⟨R.known, R.old, fun v s hs => (R.stage v s hs).imp ?_ (fun h => ?_) ?_ id,
    fun v hv => R.running v ?_, fun v hv => R.gone v ?_⟩
  · exact Or.imp_right fun h => hqueued v (hworker ▸ h)
  · change worker.runs v
    rw [hruns, ← hworker]
    exact h
  · exact fun h => hretrying v (hworker ▸ h)
  · rw [hworker, ← hruns]
    exact hv
  · rw [hworker, ← hfinishes]
    exact hv

theorem Chronicle.proceed (C : w.Chronicle) (hworker : w.worker = worker₀)
    (hserves : ∀ v, pending.count v + (worker.serves v).toNat =
      w.pending.count v + (worker₀.serves v).toNat) : Chronicle { w with pending, worker } := { C with
  queued := fun v => (C.queued v).trans (by rw [hworker, ← hserves]) }

theorem Inv.stand (H : w.Inv) (hworker : w.worker = worker₀)
    (hhouses : ∀ v, worker.houses v = worker₀.houses v)
    (hreserves : ∀ v, worker.reserves v = worker₀.reserves v)
    (hruns : ∀ v, worker.runs v = worker₀.runs v)
    (hfinishes : ∀ v, worker.finishes v = worker₀.finishes v)
    (hserves : ∀ v, worker.serves v = worker₀.serves v) (hpopped : ∀ v, worker₀ ≠ .popped v)
    (hrequeueing : ∀ v, worker₀ ≠ .requeueing v)
    (hderegistering : ∀ v q, worker₀ = .deregistering v q → w.Settles q)
    (hunreserving : ∀ v q, worker ≠ .unreserving v q) : Inv { w with worker } := by
  refine H.proceed hworker (fun v => by rw [hhouses]) hreserves hunreserving hderegistering
    (H.receipted.proceed hworker hruns hfinishes (fun v => ?_) fun v => ?_)
    (H.chronicle.proceed hworker fun v => by rw [hserves])
  · exact Or.imp_right fun h => absurd h (hpopped v)
  · exact Or.imp_right fun h => h.elim (absurd · (hpopped v)) (absurd · (hrequeueing v))

/-- The front of the queue comes to the worker. -/
theorem Inv.pop (H : w.Inv) (hworker : w.worker = .waiting) (hpending : w.pending = vm :: pending) :
    Inv { w with pending, worker := .popped vm } := by
  have hcount : ∀ v, pending.count v + (decide (vm = v)).toNat = w.pending.count v := by
    intro v
    rw [hpending, count_cons]
    by_cases hv : vm = v <;> simp [hv]
  have hsplit : ∀ {v}, v ∈ w.pending → v ∈ pending ∨ RetirementWorker.popped vm = .popped v := by
    intro v hv
    rw [hpending] at hv
    rcases mem_cons.1 hv with rfl | hv
    · exact .inr rfl
    · exact .inl hv
  refine H.proceed hworker hcount (fun _ => rfl) nofun nofun
    (H.receipted.proceed hworker (fun _ => rfl) (fun _ => rfl) (fun v => ?_) fun v => ?_)
    (H.chronicle.proceed hworker hcount)
  · rintro (h | h)
    · exact hsplit h
    · cases h
  · rintro (h | h | h)
    · exact (hsplit h).imp_right .inl
    · cases h
    · cases h

/-- What the worker has is resident and charged, and nobody else has it. -/
theorem Inv.served (H : w.Inv) (vm : ℕ) (hhouses : w.worker.houses vm = true) :
    w.homes vm = 1 ∧ vm ∈ w.residents ∧ vm ∈ w.governor.state.allocations ∧ vm ∈ w.receipts := by
  have hpos : 0 < w.homes vm := by
    rw [homes, hhouses, Bool.toNat_true]
    omega
  obtain ⟨hone, -, hres, hmem⟩ := H.charged hpos
  exact ⟨hone, hres, hmem, H.receipted.known vm hres⟩

/-- The receipt says that the retirement is running. -/
theorem Inv.begin (H : w.Inv) (hworker : w.worker = .popped vm) :
    Inv { w.publish vm .running none with worker := .cleaning vm } := by
  have hserved := H.served vm (by rw [hworker]; exact decide_eq_true rfl)
  refine H.proceed hworker (fun _ => rfl) (fun _ => rfl) nofun nofun ?_ ?_
  · refine H.receipted.answer rfl (fun v hv => hv) rfl (decide_eq_true rfl) (fun v hv phase h => ?_)
      (fun v hv => ?_) (fun v hv => by cases hv)
    · have hother : w.worker ≠ .popped v := by
        rw [hworker]
        rintro ⟨⟩
        exact hv rfl
      refine h.imp ?_ (fun h => ?_) ?_ id
      · exact Or.imp_right fun h => h.imp_right fun h => absurd h hother
      · simp only [Stage, hworker] at h
        cases h
      · refine Or.imp_right fun h => h.elim (absurd · hother) fun h => ?_
        cases hworker.symm.trans h
    · obtain rfl : vm = v := of_decide_eq_true hv
      exact .inl ⟨rfl, rfl, hserved.2.2.2⟩
  · refine {
      (H.chronicle.proceed hworker fun _ => rfl : Chronicle { w with worker := .cleaning vm }) with
      completed := fun v => (H.chronicle.completed v).trans ?_ }
    exact congrArg Bool.toNat (any_completed_publish .running nofun
      (H.receipted.open_of_mem hserved.2.2.1)).symm

/-- The machine is destroyed, its reservation is not yet given back. -/
theorem Inv.destroy (H : w.Inv) (hworker : w.worker = .destroying vm) (hr : w.residents.lookup vm = some r) :
    Inv { w with residents := w.residents.erase vm, worker := .unreserving vm r.pool } := { H with
  seated := by
    have S := H.seated
    refine { S with resident := fun v r h => S.resident v r (lookup_of_erase h).2,
                    worker := fun v q h => ?_ }
    cases h
    exact S.resident vm r hr
  owned := by
    have hcounts : ∀ v, homes { w with
          residents := w.residents.erase vm, worker := .unreserving vm r.pool } v +
            (if vm = v then 1 else 0) = w.homes v ∧
        bare { w with residents := w.residents.erase vm, worker := .unreserving vm r.pool } v =
          w.bare v + (if vm = v then 1 else 0) := by
      intro v
      constructor
      · simp only [homes, due, hworker]
        by_cases hv : vm = v <;> simp [RetirementWorker.houses, hv]
      · simp only [bare, hworker]
        by_cases hv : vm = v <;> simp [RetirementWorker.reserves, hv]
    have hserved := H.served vm (by rw [hworker]; exact decide_eq_true rfl)
    refine ⟨fun v => ?_, fun v => ?_⟩
    · have h₁ := (hcounts v).1
      have h₂ := H.owned.home v
      simp only [mem_erase]
      by_cases hv : vm = v
      · subst hv
        rw [if_pos rfl] at h₁
        rw [if_neg fun h => h.1 rfl]
        omega
      · rw [if_neg hv] at h₁
        rw [← Nat.add_zero (homes _ v), h₁, h₂]
        simp only [ne_eq, show ¬ v = vm from fun h => hv h.symm, not_false_eq_true, true_and]
    · have := hcounts v
      exact Eq.trans (by omega) (H.owned.owner v)
  orderly := { H.orderly with }
  receipted := {
    (H.receipted.proceed hworker (fun _ => rfl) (fun _ => rfl) (fun _ => Or.imp_right nofun)
      fun _ => Or.imp_right nofun : Receipted { w with worker := .unreserving vm r.pool }) with
    known := fun v hv => H.receipted.known v (mem_erase.1 hv).2 }
  chronicle := {
    (H.chronicle.proceed hworker fun _ => rfl :
      Chronicle { w with worker := .unreserving vm r.pool }) with }
  awaited := fun q pool c hq hc hreg hfree =>
    (H.awaited q pool c hq hc hreg hfree).imp_right fun h => h.imp_right fun ⟨v, h⟩ => by
      rw [hworker] at h
      cases h }

/-- The reservation of the destroyed machine is given back. -/
theorem Inv.unreserve (H : w.Inv) (hworker : w.worker = .unreserving vm p) :
    Inv { w.dropReservation vm with worker := .deregistering vm p } := by
  have howner := H.owned.owner vm
  have hone := mark_le_one (c := vm ∈ w.governor.state.allocations)
  have hbare : w.bare vm = w.leases.countBy (·.holding.reserves vm) + 1 := by
    rw [bare, hworker, RetirementWorker.reserves, decide_eq_true rfl, Bool.toNat_true]
  have hhomes : w.homes vm = 0 := by omega
  have hleases : w.leases.countBy (·.holding.reserves vm) = 0 := by omega
  have hres : vm ∉ w.residents := by
    intro hmem
    have := H.owned.home vm
    rw [if_pos hmem] at this
    omega
  have hmem : ∀ v, v ∈ (w.governor.dropReservation ⟨vm⟩).state.allocations ↔
      v ≠ vm ∧ v ∈ w.governor.state.allocations := fun v => mem_erase
  have hown : ∀ v c, v ≠ vm → groupOf w.governor v = some c →
      groupOf (w.governor.dropReservation ⟨vm⟩) v = some c := by
    intro v c hv h
    rw [groupOf_dropReservation, if_neg hv, h]
  have hseat : ∀ {v q}, v ≠ vm → Seat w.registration (groupOf w.governor) v q →
      Seat w.registration (groupOf (w.governor.dropReservation ⟨vm⟩)) v q := by
    rintro v q hv ⟨c, hc, h⟩
    exact ⟨c, hc, hown _ _ hv h⟩
  exact {
    governor := H.governor.move (.release vm)
    poisoned := H.poisoned
    seated := by
      have S := H.seated
      refine ⟨fun v r h => hseat ?_ (S.resident v r h), fun k l v h hv => hseat ?_ (S.lease k l v h hv),
        S.permit, by rintro _ _ ⟨⟩, S.registered, S.unique⟩
      · rintro rfl
        exact hres (mem_of_lookup h)
      · rintro rfl
        rw [countBy_eq_zero.1 hleases k l h] at hv
        cases hv
    owned := by
      have hhomes' : ∀ v, homes { w.dropReservation vm with worker := .deregistering vm p } v =
          w.homes v := by
        intro v
        simp only [homes, due, hworker]
        rfl
      refine ⟨fun v => (hhomes' v).trans (H.owned.home v), fun v => ?_⟩
      have howner := H.owned.owner v
      rw [hhomes']
      simp only [bare, hworker, hmem, dropReservation] at howner ⊢
      by_cases hv : v = vm
      · subst hv
        simp [hhomes, hleases, RetirementWorker.reserves]
      · have hno : RetirementWorker.reserves v (.unreserving vm p) = false :=
          decide_eq_false fun h => hv h.symm
        rw [hno] at howner
        simp only [ne_eq, hv, not_false_eq_true, true_and]
        exact howner
    orderly := { H.orderly with }
    receipted := by
      have R := H.receipted
      refine ⟨R.known, R.old, fun v s hs => (R.stage v s hs).imp ?_ (fun h => ?_) ?_
        fun h hm => h ((hmem v).1 hm).2, fun v hv => R.running v ?_, fun v hv h => ?_⟩
      · exact Or.imp_right fun h => h.imp_right fun h => by cases hworker.symm.trans h
      · rwa [Stage, hworker] at h
      · exact Or.imp_right fun h => by rcases h with h | h <;> cases hworker.symm.trans h
      · rw [hworker]
        exact hv
      · obtain rfl : vm = v := of_decide_eq_true hv
        exact ((hmem vm).1 h).1 rfl
    chronicle := by
      have C := H.chronicle
      exact ⟨fun v => (C.queued v).trans (by rw [hworker]; rfl), C.completed, C.released, C.failed⟩
    awaited := by
      intro q pool c hq hc hreg hfree
      by_cases hvm : groupOf w.governor vm = some c.1
      · obtain ⟨d, hd, hgroup⟩ := H.seated.worker vm p hworker
        have := H.seated.unique q p c d hreg hd (Option.some.inj (hvm.symm.trans hgroup))
        exact this ▸ .inr (.inr ⟨vm, rfl⟩)
      · refine (H.awaited q pool c hq hc hreg fun v hv => ?_).imp_right fun h => h.imp_right ?_
        · exact hfree v (hown v c.1 (fun e => hvm (e ▸ hv)) hv)
        · rintro ⟨v, h⟩
          rw [hworker] at h
          cases h }

/-- The registration of the destroyed machine was looked at. -/
theorem Inv.deregister (H : w.Inv) (hworker : w.worker = .deregistering vm p)
    (hsettles : w.Settles p) : Inv { w with worker := .publishing vm } := by
  refine H.stand hworker (fun _ => rfl) (fun _ => rfl) (fun _ => rfl) (fun _ => rfl) (fun _ => rfl)
    nofun nofun (fun v q h => ?_) nofun
  cases h
  exact hsettles

section
variable {worker₀ : RetirementWorker} (hworker : w.worker = worker₀)
  (hruns : ∀ v, worker₀.runs v = decide (vm = v)) (hpopped : ∀ v, worker₀ ≠ .popped v)
  (hrequeueing : ∀ v, worker₀ ≠ .requeueing v)
include hworker hruns hpopped hrequeueing

/-- The receipt of the machine the worker has is written, and the worker no longer runs. -/
theorem Receipted.finish {log : List PoolEvent} (R : w.Receipted)
    (hidle : ∀ v, worker.runs v = false) (hfinishes : ∀ v, worker.finishes v = false)
    (hstage : Stage { w.publish vm phase error with worker, log } vm phase) :
    Receipted { w.publish vm phase error with worker, log } := by
  refine R.answer rfl (fun v hv => hv) rfl hstage (fun v hv phase h => ?_)
    (fun v h => by rw [hidle] at h; cases h) (fun v h => by rw [hfinishes] at h; cases h)
  refine h.imp ?_ (fun h => ?_) ?_ id
  · exact Or.imp_right fun h => h.imp_right fun h => absurd (hworker.symm.trans h) (hpopped v)
  · rw [Stage, hworker, hruns] at h
    exact absurd (of_decide_eq_true h).symm hv
  · exact Or.imp_right fun h => h.elim (fun h => absurd (hworker.symm.trans h) (hpopped v))
      fun h => absurd (hworker.symm.trans h) (hrequeueing v)

end

theorem Inv.complete (H : w.Inv) (hworker : w.worker = .publishing vm) :
    Inv { (w.publish vm .completed none).record (.completed vm) with worker := .settling } := by
  have hgone : vm ∉ w.governor.state.allocations :=
    H.receipted.gone vm (by rw [hworker]; exact decide_eq_true rfl)
  have hrunning := H.receipted.running vm (by rw [hworker]; exact decide_eq_true rfl)
  refine H.proceed hworker (fun _ => rfl) (fun _ => rfl) nofun nofun ?_ ?_
  · exact H.receipted.finish hworker (fun _ => rfl) nofun nofun (fun _ => rfl) (fun _ => rfl) hgone
  · refine H.chronicle.record rfl (fun v => ?_) (fun v => ?_) (fun q => rfl) nofun
    · rw [hworker]
      by_cases hv : vm = v <;> simp [RetirementWorker.serves, record, publish, hv]
    · simp only [PoolEvent.completed.injEq]
      by_cases hv : vm = v
      · subst hv
        rw [if_pos rfl]
        simp only [record, publish]
        rw [lookup_adjust_self]
        cases hs : w.receipts.lookup vm with
        | none =>
          rw [hs] at hrunning
          cases hrunning
        | some s =>
          rw [hs] at hrunning
          have hphase : s.phase = .running := of_decide_eq_true hrunning
          simp [ModuleRetirementSnapshot.publish, hphase]
      · rw [if_neg hv]
        exact congrArg Bool.toNat (any_adjust fun h => hv h.symm)

/-- The receipt says that the cleanup failed. -/
theorem Inv.retry (H : w.Inv) (hworker : w.worker = .failing vm code) :
    Inv { (w.publish vm .retrying (some code)).record (.failed vm code) with
      worker := .requeueing vm } := by
  have hserved := H.served vm (by rw [hworker]; exact decide_eq_true rfl)
  refine H.proceed hworker (fun _ => rfl) (fun _ => rfl) nofun nofun ?_ ?_
  · exact H.receipted.finish hworker (fun _ => rfl) nofun nofun (fun _ => rfl) (fun _ => rfl)
      (.inr (.inr rfl))
  · refine H.chronicle.record rfl (fun v => ?_) (fun v => ?_) (fun q => rfl) (fun v code' h => ?_)
    · rw [hworker]
      rfl
    · exact congrArg Bool.toNat (any_completed_publish .retrying nofun
        (H.receipted.open_of_mem hserved.2.2.1))
    · cases h
      have := H.chronicle.queued vm
      rw [hworker, RetirementWorker.serves, decide_eq_true rfl, Bool.toNat_true] at this
      exact count_pos_iff.1 (by omega)

/-- A machine whose cleanup failed is at the end of the queue again. -/
theorem Inv.requeue (H : w.Inv) (hworker : w.worker = .requeueing vm) :
    Inv { w with pending := w.pending ++ [vm], worker := .waiting } := by
  have hcount : ∀ v, (w.pending ++ [vm]).count v + 0 = w.pending.count v + (decide (vm = v)).toNat := by
    intro v
    rw [count_append, count_singleton]
    by_cases hv : vm = v <;> simp [hv]
  refine H.proceed hworker hcount (fun _ => rfl) nofun nofun
    (H.receipted.proceed hworker (fun _ => rfl) (fun _ => rfl) (fun v => ?_) fun v => ?_)
    (H.chronicle.proceed hworker hcount)
  · rintro (h | h)
    · exact .inl (mem_append_left _ h)
    · cases h
  · rintro (h | h | h)
    · exact .inl (mem_append_left _ h)
    · cases h
    · cases h
      exact .inl (mem_append_right _ (mem_singleton_self _))

end PoolWorld

end LuaSkills.Embedded.Pools
