import LuaSkills.Embedded.Operation.Runs

/-!
# Retained candidates

One candidate at a time, unchanged until it is the next one acknowledged, and submitted again only on
request.
-/

namespace LuaSkills.Embedded

open WriterWorld List

namespace Operation
variable {O : Operation} {K : Allowance} {w v : OperationWorld} {c c' : PendingCheckpoint} {σ : Slot}

/-! ## One candidate at a time -/

theorem Move.acknowledged_prefix (m : Move O K w v) : w.acknowledged <+: v.acknowledged := by
  cases m with
  | progress h hp =>
    cases hp with
    | acknowledge => exact prefix_append _ _
    | _ => exact prefix_rfl
  | _ => exact prefix_rfl

/-- No other move touches the slot of a candidate that waits for its acknowledgement. -/
theorem Protocol.slot_kept (P : Protocol O w) (h : w.slot σ = some c)
    (hn : c.attempt ≠ .acknowledged) (m : Move O K w v) :
    (v.slot σ = some c ∧ v.submissions = w.submissions ∧ v.acknowledged = w.acknowledged) ∨
      ∃ u c', Progress O K w c u c' ∧ v = u.setSlot σ (some c') := by
  have hcompletion : σ = .completion → w.pendingCompletion = some c.snapshot := by
    rintro rfl
    exact P.completion c h
  cases m with
  | writer | cancel | gate | ledger | issue | complete | authorize => exact .inl ⟨h, rfl, rfl⟩
  | capture ht hp =>
    cases σ with
    | transition => exact absurd (ht.symm.trans h) nofun
    | completion => exact absurd (hp.symm.trans (hcompletion rfl)) nofun
  | finalize hc =>
    obtain ⟨-, hp, ht, -⟩ := checkFinalization_ok hc
    cases σ with
    | transition => exact absurd (ht.symm.trans h) nofun
    | completion => exact absurd (hp.symm.trans (hcompletion rfl)) nofun
  | close hc =>
    obtain ⟨-, -, hp, -, ht, -⟩ := checkOutcome_ok hc
    cases σ with
    | transition => exact absurd (ht.symm.trans h) nofun
    | completion => exact absurd (hp.symm.trans (hcompletion rfl)) nofun
  | retain hc hnone =>
    cases σ with
    | transition => exact .inl ⟨h, rfl, rfl⟩
    | completion => exact absurd (hnone.symm.trans h) nofun
  | progress h' hp =>
    obtain ⟨rfl, rfl⟩ := P.slot_unique h h'
    exact .inr ⟨_, _, hp, rfl⟩
  | consume hc hack | publishPhase hc hack =>
    obtain ⟨-, rfl⟩ := P.slot_unique (τ := .transition) h hc
    exact absurd hack hn
  | publishCompletion hc hack =>
    obtain ⟨-, rfl⟩ := P.slot_unique (τ := .completion) h hc
    exact absurd hack hn

/-- A candidate stays as it was captured until it is the next one acknowledged. -/
def Kept (w : OperationWorld) (σ : Slot) (c : PendingCheckpoint) (v : OperationWorld) : Prop :=
  (∃ c', v.slot σ = some c' ∧ Continues c c' ∧ c'.attempt ≠ .acknowledged ∧
    v.acknowledged = w.acknowledged) ∨
  v.acknowledged[w.acknowledged.length]? = some (w.acknowledged.length + 1, c.snapshot)

theorem Kept.move (P : Protocol O v) (k : Kept w σ c v) (m : Move O K v u) : Kept w σ c u := by
  rcases k with ⟨c', hc', hcont, hn, ha⟩ | hack
  · rcases P.slot_kept hc' hn m with ⟨h, -, ha'⟩ | ⟨u', c'', hp, rfl⟩
    · exact .inl ⟨c', h, hcont, hn, ha'.trans ha⟩
    · have hcont' := hcont.trans hp.continues
      have stay : c''.attempt ≠ .acknowledged → u'.acknowledged = v.acknowledged →
          Kept w σ c (u'.setSlot σ (some c'')) := fun hn' ha' =>
        .inl ⟨c'', OperationWorld.slot_setSlot .., hcont', hn', ha'.trans ha⟩
      have hrev := (P.move m).revised.revisions
      cases hp with
      | permit =>
        refine stay ?_ rfl
        dsimp only
        split
        · nofun
        · exact hn
      | submit =>
        refine stay ?_ rfl
        dsimp only [Attempt.ofSubmission]
        split <;> nofun
      | lose | fail => exact stay nofun rfl
      | settle hack => exact absurd hack hn
      | report | request => exact stay hn rfl
      | @acknowledge id next receipt =>
        right
        have hnext : (v.acknowledged ++ [(next, c'.snapshot)]).map Prod.fst =
          range' 1 (v.acknowledged ++ [(next, c'.snapshot)]).length := hrev
        have := congrArg (·[w.acknowledged.length]?) hnext
        simp only [ha, getElem?_map, getElem?_concat_length, length_append,
          length_singleton] at this
        rw [getElem?_range' (Nat.lt_succ_self _)] at this
        change (v.acknowledged ++ [(next, c'.snapshot)])[w.acknowledged.length]? = _
        rw [ha, getElem?_concat_length, hcont.snapshot]
        simpa [Nat.add_comm] using this
  · exact .inr (getElem?_prefix_some m.acknowledged_prefix hack)

/-- A receipt that can no longer be observed is not retried. -/
theorem Protocol.unobservable_kept (P : Protocol O w) {id : ℕ} {e : EmbeddedError}
    (h : w.slot σ = some c) (hu : c.attempt = .unobservable id e) (m : Move O K w v) :
    v.submissions = w.submissions ∧ ∃ c', v.slot σ = some c' ∧ Continues c c' ∧
      c'.attempt = .unobservable id e := by
  rcases P.slot_kept h (by rw [hu]; rintro ⟨⟩) m with ⟨h', hs, -⟩ | ⟨u, c', hp, rfl⟩
  · exact ⟨hs, c, h', .refl c, hu⟩
  · have hcont := hp.continues
    have stay : u.submissions = w.submissions → c'.attempt = .unobservable id e →
        (u.setSlot σ (some c')).submissions = w.submissions ∧ ∃ d, (u.setSlot σ (some c')).slot σ =
          some d ∧ Continues c d ∧ d.attempt = .unobservable id e :=
      fun hs ha => ⟨hs, c', OperationWorld.slot_setSlot .., hcont, ha⟩
    cases hp with
    | permit => exact stay rfl (by simp [hu, Attempt.isFailed])
    | submit _ hc | lose hc | acknowledge hc | fail hc | settle hc => cases hu.symm.trans hc
    | report => exact stay rfl hu
    | request _ _ _ hne => exact absurd hu (hne id e)

theorem Move.retries_observing (m : Move O .observing w v) : v.retries = w.retries := by
  cases m with
  | progress h hp =>
    cases hp with
    | permit _ hr =>
      change (if _ then _ else _) = _
      rw [if_neg]
      exact fun h => hr h.1
    | request hr => exact hr.elim
    | _ => rfl
  | _ => rfl

theorem Moves.retries_observing (m : Moves O .observing w v) : v.retries = w.retries := by
  induction m with
  | refl => rfl
  | tail _ m ih => exact m.retries_observing.trans ih

theorem Inv.kept (I : Inv O w) (h : w.slot σ = some c) (hn : c.attempt ≠ .acknowledged)
    (m : Moves O K w v) : Kept w σ c v := by
  induction m with
  | refl => exact .inl ⟨c, h, .refl c, hn, rfl⟩
  | tail ms m ih => exact ih.move (I.moves ms).protocol m

theorem Inv.unobservable (I : Inv O w) {id : ℕ} {e : EmbeddedError} (h : w.slot σ = some c)
    (hu : c.attempt = .unobservable id e) (m : Moves O K w v) :
    v.submissions = w.submissions ∧ ∃ c', v.slot σ = some c' ∧ Continues c c' ∧
      c'.attempt = .unobservable id e := by
  induction m with
  | refl => exact ⟨rfl, c, h, .refl c, hu⟩
  | tail ms m ih =>
    obtain ⟨hs, c', hc', hcont, hu'⟩ := ih
    obtain ⟨hs', c'', hc'', hcont', hu''⟩ := (I.moves ms).protocol.unobservable_kept hc' hu' m
    exact ⟨hs'.trans hs, c'', hc'', hcont.trans hcont', hu''⟩

end Operation

end LuaSkills.Embedded
