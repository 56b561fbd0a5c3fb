import LuaSkills.Embedded.Pools.Admission

/-!
# Retirement

The sections of the calls under way and the stages of the worker.
-/

namespace LuaSkills.Embedded.Pools

open AList List Option

theorem RetirementWorker.serves_eq {worker : RetirementWorker} :
    worker.serves vm = (worker.houses vm || worker.reserves vm || worker.finishes vm) := by
  cases worker <;> simp [serves, houses, reserves, finishes]

theorem RetirementWorker.serves_of_runs {worker : RetirementWorker} (h : worker.runs vm) :
    worker.serves vm := by
  cases worker <;> first | exact h | cases h

namespace PoolWorld
variable {w w' : PoolWorld} {g : PoolGovernor} {k p q vm : ℕ} {pool : ModulePool}
  {rest : List PoolAction} {t : ℕ} {pending : List ℕ} {error : Option EmbeddedErrorCode}
  {phase : ModuleRetirementPhase}

theorem Inv.charged (H : w.Inv) (h : 0 < w.homes vm) :
    w.homes vm = 1 ∧ w.bare vm = 0 ∧ vm ∈ w.residents ∧ vm ∈ w.governor.state.allocations := by
  have hhome := H.owned.home vm
  have howner := H.owned.owner vm
  have hone := mark_le_one (c := vm ∈ w.governor.state.allocations)
  have hres : vm ∈ w.residents := by
    by_contra hn
    rw [if_neg hn] at hhome
    omega
  rw [if_pos hres] at hhome
  have hmem : vm ∈ w.governor.state.allocations := by
    by_contra hn
    rw [if_neg hn] at howner
    omega
  exact ⟨hhome, by omega, hres, hmem⟩

/-- A machine that another hand has is not the worker's. -/
theorem Inv.not_serves (H : w.Inv) (h : (w.worker.houses vm).toNat < w.homes vm) :
    w.worker.serves vm = false := by
  obtain ⟨hone, hbare, -, hmem⟩ := H.charged (by omega : 0 < w.homes vm)
  have hhouses : w.worker.houses vm = false := by
    cases hh : w.worker.houses vm with
    | false => rfl
    | true =>
      rw [hh, Bool.toNat_true] at h
      omega
  have hreserves : w.worker.reserves vm = false := by
    cases hh : w.worker.reserves vm with
    | false => rfl
    | true =>
      rw [bare, hh, Bool.toNat_true] at hbare
      omega
  have hfinishes : w.worker.finishes vm = false :=
    Bool.eq_false_iff.2 fun hh => H.receipted.gone vm hh hmem
  rw [RetirementWorker.serves_eq, hhouses, hreserves, hfinishes]
  rfl

theorem Inv.not_serves_of_due (H : w.Inv) (h : 0 < w.due (.push vm)) : w.worker.serves vm = false :=
  H.not_serves (by rw [homes]; omega)

/-! ## Receipts -/

theorem any_adjust (h : v ≠ vm) :
    ((w.receipts.adjust vm f).lookup v).any P = (w.receipts.lookup v).any P := by
  rw [lookup_adjust_ne h]

/-- A receipt is written while its machine is where the new phase says. -/
theorem Receipted.answer (R : w.Receipted)
    (hreceipts : w'.receipts = w.receipts.adjust vm (·.publish phase error))
    (hresidents : ∀ v ∈ w'.residents, v ∈ w.residents)
    (hsequence : w'.governor.state.sequence = w.governor.state.sequence)
    (hstage : w'.Stage vm phase)
    (hothers : ∀ v, v ≠ vm → ∀ phase, w.Stage v phase → w'.Stage v phase)
    (hruns : ∀ v, w'.worker.runs v → (v = vm ∧ phase = .running ∧ vm ∈ w.receipts) ∨
      (v ≠ vm ∧ w.worker.runs v))
    (hgone : ∀ v, w'.worker.finishes v → v ∉ w'.governor.state.allocations) : w'.Receipted where
  known v hv := by
    rw [hreceipts, mem_adjust]
    exact R.known v (hresidents v hv)
  old v hv := by
    rw [hreceipts, mem_adjust] at hv
    exact (R.old v hv).trans_eq hsequence.symm
  stage v s hs := by
    rw [hreceipts, lookup_adjust_eq] at hs
    split at hs
    · next hv =>
      obtain ⟨s, -, rfl⟩ := map_eq_some_iff.1 hs
      exact hv ▸ hstage
    · next hv => exact hothers v hv _ (R.stage v s hs)
  running v hv := by
    rw [hreceipts]
    rcases hruns v hv with ⟨rfl, rfl, hmem⟩ | ⟨hne, hv⟩
    · obtain ⟨s, hs⟩ := mem_iff_lookup.1 hmem
      rw [lookup_adjust_self, hs]
      rfl
    · rw [any_adjust hne]
      exact R.running v hv
  gone := hgone

theorem any_completed_publish (phase : ModuleRetirementPhase) (hphase : phase ≠ .completed)
    (hopen : (w.receipts.lookup vm).any (·.phase = .completed) = false) :
    ((w.receipts.adjust vm (·.publish phase error)).lookup v).any (·.phase = .completed) =
      (w.receipts.lookup v).any (·.phase = .completed) := by
  by_cases hv : v = vm
  · subst hv
    rw [lookup_adjust_self, hopen]
    cases w.receipts.lookup v with
    | none => rfl
    | some s => exact decide_eq_false hphase
  · exact any_adjust hv

/-! ## Sections of a call -/

/-- The receipt says that the retirement is queued. -/
theorem Inv.queue (H : w.Inv) (hdue : 0 < w.due (.push vm)) : (w.publish vm .queued none).Inv := by
  have hserves := H.not_serves_of_due hdue
  have hmem : vm ∈ w.governor.state.allocations :=
    (H.charged (by rw [homes]; omega)).2.2.2
  exact { H with
    owned := { H.owned with }
    orderly := { H.orderly with }
    receipted := by
      refine H.receipted.answer rfl (fun v hv => hv) rfl (.inl hdue) (fun v _ phase h => ?_)
        (fun v hv => .inr ⟨?_, hv⟩) H.receipted.gone
      · cases phase <;> exact h
      · rintro rfl
        change w.worker.runs v at hv
        rw [RetirementWorker.serves_of_runs hv] at hserves
        cases hserves
    chronicle := by
      have C := H.chronicle
      refine ⟨C.queued, fun v => (C.completed v).trans ?_, C.released, C.failed⟩
      exact congrArg Bool.toNat (any_completed_publish .queued (by rintro ⟨⟩)
        (H.receipted.open_of_mem hmem)).symm }

theorem Inv.push (H : w.Inv) (h : w.threads[t]? = some (.push vm :: rest)) :
    Inv (({ w with
      pending := w.pending ++ [vm]
      threads := w.threads.set t rest } : PoolWorld).record (.queued vm)) := by
  have hcount := fun b => count_flatten_set (a := b) rest h
  have hpush : ∀ v, (w.threads.set t rest).flatten.count (.push v) + (if vm = v then 1 else 0) =
      w.threads.flatten.count (.push v) := by
    intro v
    have := hcount (.push v)
    rw [count_cons] at this
    by_cases hv : vm = v <;> simp only [hv, beq_self_eq_true, if_true] at this ⊢
    · omega
    · rw [if_neg] at this
      · simp only [if_false]
        omega
      · simpa using hv
  have hother : ∀ b, b ≠ .push vm → (w.threads.set t rest).flatten.count b =
      w.threads.flatten.count b := by
    intro b hb
    have := hcount b
    rw [count_cons_of_ne hb.symm] at this
    omega
  have hhomes : ∀ v, (({ w with
      pending := w.pending ++ [vm]
      threads := w.threads.set t rest } : PoolWorld).record (.queued vm)).homes v = w.homes v := by
    intro v
    have := hpush v
    simp only [homes, due, record]
    rw [count_append, count_singleton]
    simp only [beq_iff_eq]
    omega
  exact { H with
    owned := H.owned.of_counts hhomes (fun _ => rfl) rfl rfl
    orderly := by
      have O := H.orderly
      refine ⟨O.pool, O.lease, fun x hx => ?_, fun p hp => O.shut p ?_, O.closing, O.released⟩
      · rcases mem_or_eq_of_mem_set hx with hx | rfl
        · exact O.follows x hx
        · exact (O.follows _ (mem_of_getElem? h)).2
      · simp only [due, record] at hp ⊢
        rwa [hother (.setClosing p) (by rintro ⟨⟩)] at hp
    receipted := by
      have R := H.receipted
      refine ⟨R.known, R.old, fun v s hs => (R.stage v s hs).imp ?_ id
        (Or.imp_left (mem_append_left _)) id, R.running, R.gone⟩
      rintro (hdue | hmem | hpop)
      · by_cases hv : vm = v
        · exact .inr (.inl (mem_append_right _ (mem_singleton.2 hv.symm)))
        · left
          have := hpush v
          rw [if_neg hv] at this
          simp only [due, record] at hdue ⊢
          omega
      · exact .inr (.inl (mem_append_left _ hmem))
      · exact .inr (.inr hpop)
    chronicle := by
      refine H.chronicle.record rfl (fun v => ?_) (fun _ => rfl) (fun _ => rfl) (by rintro _ _ ⟨⟩)
      simp only [record, count_append, count_singleton, PoolEvent.queued.injEq, beq_iff_eq,
        reduceCtorEq, if_false]
      omega
    awaited := fun q pool c hq hc hreg hfree =>
      (H.awaited q pool c hq hc hreg hfree).imp_left fun hd => by
        simp only [due, record] at hd ⊢
        rwa [hother (.releaseIfDrained q) (by rintro ⟨⟩)] }

/-- A shut pool gives its registration up. -/
theorem Inv.setClosing (H : w.Inv) (hp : w.pools.lookup p = some pool) (hshut : w.Shut p)
    (hdue : 0 < w.due (.releaseIfDrained p)) : (w.setPool p { pool with closing := true }).Inv := by
  have hgoes : Goes pool { pool with closing := true } := ⟨rfl, rfl, rfl, id, id⟩
  have hreg := hgoes.registration hp
  exact { H with
    seated := by
      have S := H.seated
      rw [← hreg] at S
      exact S
    owned := by
      refine H.owned.of_counts (fun v => ?_) (fun _ => rfl) rfl rfl
      simp only [homes, due, setPool]
      rw [sumBy_insert, sumBy_of_lookup (m := w.pools) hp]
    orderly := hgoes.orderly hp H.orderly (fun _ => .inl hshut) fun _ => rfl
    receipted := { H.receipted with }
    chronicle := ⟨H.chronicle.queued, H.chronicle.completed,
      fun q => (H.chronicle.released q).trans (by rw [← hgoes.any_released hp]; rfl), H.chronicle.failed⟩
    awaited := fun q pool₁ c hq hc hr hfree => by
      by_cases e : q = p
      · exact .inl (e ▸ hdue)
      · have hq₀ : w.pools.lookup q = some pool₁ := by
          rw [← hq]
          exact (lookup_insert_ne e).symm
        exact H.awaited q pool₁ c hq₀ hc (by rw [← hreg]; exact hr) hfree }

/-! ## Release -/

/-- The registration will not wait for another look. -/
def Settles (w : PoolWorld) (p : ℕ) : Prop :=
  ∀ pool c, w.pools.lookup p = some pool → pool.closing = true → w.registration p = some c →
    ∃ vm, groupOf w.governor vm = some c.1

/-- `unregister_group` succeeded. -/
theorem Inv.unregister (H : w.Inv) (hp : w.pools.lookup p = some pool) (hclosing : pool.closing = true)
    (hreg : w.registration p = some (pool.group, pool.policy))
    (M : w.governor.Moves g) (hfree : ∀ vm, groupOf w.governor vm ≠ some pool.group)
    (hgroups : g.state.groups = w.governor.state.groups.erase pool.group)
    (hseq : g.state.sequence = w.governor.state.sequence)
    (hown : ∀ vm, groupOf g vm = groupOf w.governor vm) :
    ((({ w with governor := g } : PoolWorld).setPool p { pool with released := true }).record
      (.released p)).Inv := by
  let w' := (({ w with governor := g } : PoolWorld).setPool p { pool with released := true }).record
    (.released p)
  have hopen : pool.released = false := by
    cases hr : pool.released with
    | false => rfl
    | true =>
      rw [registration, hp, bind_some, hr] at hreg
      cases hreg
  have hreg' : ∀ q, w'.registration q = if q = p then none else w.registration q := by
    intro q
    simp only [w', registration, record, setPool, lookup_insert_eq]
    split
    · rfl
    · rfl
  have hseat : ∀ {v q}, Seat w.registration (groupOf w.governor) v q →
      Seat w'.registration (groupOf g) v q := by
    rintro v q ⟨c, hc, hvm⟩
    refine ⟨c, ?_, (hown _).trans hvm⟩
    rw [hreg', if_neg, hc]
    rintro rfl
    rw [hreg] at hc
    cases hc
    exact hfree v hvm
  have hmem : ∀ v, v ∈ g.state.allocations ↔ v ∈ w.governor.state.allocations := by
    intro v
    rw [← groupOf_isSome, hown, groupOf_isSome]
  have hlookup : ∀ q pool₁, w'.pools.lookup q = some pool₁ →
      (q = p ∧ pool₁ = { pool with released := true }) ∨ (q ≠ p ∧ w.pools.lookup q = some pool₁) := by
    intro q pool₁ hq
    rcases lookup_of_insert hq with ⟨e, rfl⟩ | ⟨e, hq⟩
    · exact .inl ⟨e, rfl⟩
    · exact .inr ⟨e, hq⟩
  have hshut : ∀ {q}, w.Shut q → w'.Shut q := by
    rintro q ⟨pool₁, hq, h⟩
    by_cases e : q = p
    · subst e
      cases hp.symm.trans hq
      exact ⟨_, lookup_insert _, h⟩
    · exact ⟨pool₁, (lookup_insert_ne e).trans hq, h⟩
  exact {
    governor := M.config ▸ H.governor.move M.move
    poisoned := M.poisoned.trans H.poisoned
    seated := by
      have S := H.seated
      refine ⟨fun v r h => hseat (S.resident v r h), fun k l v h hr => hseat (S.lease k l v h hr),
        S.permit, fun v q h => hseat (S.worker v q h), fun group policy => ?_,
        fun q₁ q₂ c d h₁ h₂ he => ?_⟩
      · change g.state.groups.lookup group = some policy ↔ ∃ q, w'.registration q = some (group, policy)
        rw [hgroups, lookup_erase_eq]
        constructor
        · intro hg
          split at hg
          · cases hg
          · next hne =>
            obtain ⟨q, hq⟩ := (S.registered group policy).1 hg
            refine ⟨q, (hreg' q).trans ?_⟩
            rw [if_neg, hq]
            rintro rfl
            rw [hreg] at hq
            cases hq
            exact hne rfl
        · rintro ⟨q, hq⟩
          rw [hreg'] at hq
          split at hq
          · cases hq
          · next hne =>
            rw [if_neg]
            · exact (S.registered group policy).2 ⟨q, hq⟩
            · rintro rfl
              exact hne (S.unique q p _ _ hq hreg rfl)
      · have hold : ∀ {q c}, w'.registration q = some c → w.registration q = some c := by
          intro q c h
          rw [hreg'] at h
          split at h
          · cases h
          · exact h
        exact S.unique q₁ q₂ c d (hold h₁) (hold h₂) he
    owned := by
      have hhomes : ∀ v, w'.homes v = w.homes v := by
        intro v
        simp only [w', homes, due, record, setPool]
        rw [sumBy_insert, sumBy_of_lookup (m := w.pools) hp]
      refine ⟨fun v => (hhomes v).trans (H.owned.home v), fun v => ?_⟩
      have := H.owned.owner v
      simp only [← hmem] at this
      change w'.homes v + w.bare v = _
      rw [hhomes]
      exact this
    orderly := by
      have O := H.orderly
      refine ⟨fun q hq => ?_, O.lease, O.follows, fun q h => hshut (O.shut q h), fun q pool₁ hq hc => ?_,
        fun q pool₁ hq hr => ?_⟩
      · rcases (mem_insert _).1 hq with rfl | hq
        · exact O.pool _ (mem_of_lookup hp)
        · exact O.pool q hq
      · rcases hlookup q pool₁ hq with ⟨rfl, rfl⟩ | ⟨-, hq⟩
        · exact hshut (O.closing q pool hp hclosing)
        · exact hshut (O.closing q pool₁ hq hc)
      · rcases hlookup q pool₁ hq with ⟨rfl, rfl⟩ | ⟨-, hq⟩
        · exact hclosing
        · exact O.released q pool₁ hq hr
    receipted := by
      have R := H.receipted
      exact ⟨R.known, fun v hv => (R.old v hv).trans_eq hseq.symm,
        fun v s hs => (R.stage v s hs).imp id id id fun h hm => h ((hmem v).1 hm), R.running,
        fun v hv hm => R.gone v hv ((hmem v).1 hm)⟩
    chronicle := by
      refine H.chronicle.record rfl (fun _ => rfl) (fun _ => rfl) (fun q => ?_) (by rintro _ _ ⟨⟩)
      simp only [record, setPool, lookup_insert_eq, PoolEvent.released.injEq]
      by_cases e : q = p
      · subst e
        rw [hp, any_some, hopen]
        simp
      · rw [if_neg e, if_neg fun h => e h.symm]
        rfl
    awaited := fun q pool₁ c hq hc hr hfree' => by
      rw [hreg'] at hr
      split at hr
      · cases hr
      · next e =>
        rcases hlookup q pool₁ hq with ⟨h, -⟩ | ⟨-, hq⟩
        · exact absurd h e
        · exact H.awaited q pool₁ c hq hc hr fun v hv => hfree' v ((hown v).trans hv) }

/-- `release_if_drained` returns, and the registration then waits for nothing. -/
theorem Inv.releaseIfDrained (H : w.Inv) : ∃ w', w.releaseIfDrained p = .ok w' ∧ w'.Inv ∧
    w'.Settles p ∧ w'.threads = w.threads ∧ w'.worker = w.worker := by
  unfold PoolWorld.releaseIfDrained
  cases hp : w.pools.lookup p with
  | none =>
    refine ⟨w, rfl, H, fun pool c h => ?_, rfl, rfl⟩
    rw [hp] at h
    cases h
  | some pool =>
    dsimp only
    split
    · next hc =>
      have hreg : w.registration p = some (pool.group, pool.policy) := by
        rw [registration, hp, bind_some, if_neg hc.2]
      have hg : pool.group ∈ w.governor.state.groups :=
        mem_of_lookup ((H.seated.registered _ _).2 ⟨p, hreg⟩)
      rcases unregisterGroup_spec H.poisoned hg with ⟨e, he, vm, hvm⟩ |
        ⟨g, hg', M, hfree, hgroups, hseq, hown⟩
      · refine ⟨w, by rw [he]; rfl, H, fun pool₁ c h hcl hr => ?_, rfl, rfl⟩
        rw [hreg] at hr
        cases hr
        exact ⟨vm, hvm⟩
      · refine ⟨_, by rw [hg']; rfl, H.unregister hp hc.1 hreg M hfree hgroups hseq hown,
          fun pool₁ c h hcl hr => ?_, rfl, rfl⟩
        simp only [registration, record, setPool, lookup_insert, bind_some, if_true] at hr
        cases hr
    · next hc =>
      refine ⟨w, rfl, H, fun pool₁ c h hcl hr => ?_, rfl, rfl⟩
      cases hp.symm.trans h
      rw [registration, hp, bind_some] at hr
      split at hr
      · cases hr
      · next hn => exact absurd ⟨hcl, hn⟩ hc

/-- A look at a registration that waits for nothing is over. -/
theorem Inv.lookedAt (H : w.Inv) (h : w.threads[t]? = some (.releaseIfDrained p :: rest))
    (hsettles : w.Settles p) : Inv { w with threads := w.threads.set t rest } := by
  have hcount := fun b => count_flatten_set (a := b) rest h
  have hother : ∀ b, b ≠ .releaseIfDrained p → (w.threads.set t rest).flatten.count b =
      w.threads.flatten.count b := by
    intro b hb
    have := hcount b
    rw [count_cons_of_ne hb.symm] at this
    omega
  have hhomes : ∀ v, homes { w with threads := w.threads.set t rest } v = w.homes v := by
    intro v
    simp only [homes, due]
    rw [hother (.push v) (by rintro ⟨⟩)]
  exact { H with
    owned := H.owned.of_counts hhomes (fun _ => rfl) rfl rfl
    orderly := by
      have O := H.orderly
      refine ⟨O.pool, O.lease, fun x hx => ?_, fun q hq => O.shut q ?_, O.closing, O.released⟩
      · rcases mem_or_eq_of_mem_set hx with hx | rfl
        · exact O.follows x hx
        · exact (O.follows _ (mem_of_getElem? h)).2
      · simp only [due] at hq ⊢
        rwa [hother (.setClosing q) (by rintro ⟨⟩)] at hq
    receipted := by
      have R := H.receipted
      refine ⟨R.known, R.old, fun v s hs => (R.stage v s hs).imp (Or.imp_left fun hd => ?_) id id id,
        R.running, R.gone⟩
      simp only [due] at hd ⊢
      rwa [hother (.push v) (by rintro ⟨⟩)]
    chronicle := { H.chronicle with }
    awaited := fun q pool c hq hc hreg hfree => by
      by_cases e : q = p
      · subst e
        obtain ⟨vm, hvm⟩ := hsettles pool c hq hc hreg
        exact absurd hvm (hfree vm)
      · refine (H.awaited q pool c hq hc hreg hfree).imp_left fun hd => ?_
        simp only [due] at hd ⊢
        rwa [hother]
        intro hn
        cases hn
        exact e rfl }

end PoolWorld

end LuaSkills.Embedded.Pools
