import LuaSkills.RuntimeLease.Listing

/-!
# Snapshots in the order of evaluations

A lease is listed with the expiry its session has whenever no evaluation of it is under way, in every
run in which no evaluation installs its snapshot after a later one of the same lease has.
-/

namespace LuaSkills.RuntimeLease

open AList Option Listing

variable {w w' w'' : World} {sec : Section} {t h : ℕ} {id : String} {code : TerminalCode}

/-! ## What a step of the manager leaves alone -/

/-- No lease appears and no evaluation ends. -/
structure Frame (w w' : World) : Prop where
  leases : ∀ id entry, w'.state.leases.lookup id = some entry → w.state.leases.lookup id = some entry
  evaluating : ∀ t h, w.tasks.lookup t = some (.evaluating h) → w'.tasks.lookup t = some (.evaluating h)

namespace Frame

theorem trans (F : Frame w w') (F' : Frame w' w'') : Frame w w'' :=
  ⟨fun id entry he => F.leases id entry (F'.leases id entry he), fun t h ht => F'.evaluating t h (F.evaluating t h ht)⟩

/-- Neither map is touched. -/
theorem of_eq (hleases : w'.state.leases = w.state.leases) (htasks : w'.tasks = w.tasks) : Frame w w' :=
  ⟨fun _ _ he => hleases ▸ he, fun _ _ ht => htasks ▸ ht⟩

theorem retire (hretire : w.retire id code = some w') : Frame w w' := by
  obtain ⟨entry, -, rfl⟩ := retire_eq_some.mp hretire
  exact ⟨fun id' entry' he => (lookup_of_erase he).2, fun _ _ ht => ht⟩

theorem retire_getD : Frame w ((w.retire id code).getD w) := by
  cases hretire : w.retire id code with
  | none => exact of_eq rfl rfl
  | some w₁ => exact retire hretire

/-- A task that is not an evaluation ends or goes on. -/
theorem endTask (ht : ∀ h, w.tasks.lookup t ≠ some (.evaluating h)) : Frame w (w.endTask t) := by
  refine ⟨fun _ _ he => he, fun t' h ht' => ?_⟩
  have hne : t' ≠ t := by
    rintro rfl
    exact ht h ht'
  rw [World.endTask, lookup_erase_eq, if_neg hne, ht']

theorem setTask (ht : ∀ h, w.tasks.lookup t ≠ some (.evaluating h)) : Frame w (w.setTask t task) := by
  refine ⟨fun _ _ he => he, fun t' h ht' => ?_⟩
  have hne : t' ≠ t := by
    rintro rfl
    exact ht h ht'
  rw [World.setTask, lookup_insert_eq, if_neg hne, ht']

theorem prune (hprune : w.prune sec = some w') : Frame w w' := by
  unfold World.prune at hprune
  split at hprune
  · cases hprune
    exact of_eq rfl rfl
  · cases hprune
    exact retire_getD.trans (of_eq rfl rfl)
  · cases hprune
    exact of_eq rfl rfl
  · cases hprune

theorem select (hselect : w.select request = .ok (w', replacement)) : Frame w w' := by
  unfold World.select at hselect
  split at hselect
  · cases hselect
    exact of_eq rfl rfl
  · split at hselect
    · cases hselect
      exact of_eq rfl rfl
    · split at hselect
      · split at hselect <;> cases hselect
      · split at hselect
        · cases hselect
          exact retire_getD
        · split at hselect
          · cases hselect
            exact of_eq rfl rfl
          · cases hselect

theorem closeMark (hmark : w.closeMark id expected = .ok w') : Frame w w' := by
  unfold World.closeMark at hmark
  split at hmark
  · simp only [Except.bind_eq_ok] at hmark
    obtain ⟨_, _, _, _, heq⟩ := hmark
    cases heq
    exact of_eq rfl rfl
  · cases hmark

/-- The caller that holds the manager's lock evaluates nothing. -/
theorem holder (I : Inv w) (hlock : w.lock = some sec) : w.tasks.lookup sec.task ≠ some (.evaluating h) := by
  rw [I.holding.task sec hlock]
  cases sec.call <;> nofun

theorem unlock (I : Inv w) (hlock : w.lock = some sec) (F : Frame w w') (htasks : w'.tasks = w.tasks) :
    Frame w (w'.unlock.endTask sec.task) :=
  F.trans (Frame.trans (of_eq rfl rfl : Frame w' w'.unlock) (endTask fun h => by
    rw [show w'.unlock.tasks = w.tasks from htasks]
    exact holder I hlock))

theorem check (ht : w.tasks.lookup t = some (.locked use h)) (hcheck : w.check t use h = some w') :
    Frame w w' := by
  have hidle : ∀ h', w.tasks.lookup t ≠ some (.evaluating h') := fun h' => by
    rw [ht]
    nofun
  simp only [World.check, bind_eq_bind, bind_eq_some_iff, pure_def] at hcheck
  obtain ⟨s, -, hcheck⟩ := hcheck
  split at hcheck
  · cases hcheck
    exact Frame.trans (of_eq rfl rfl : Frame w (w.setSession h _)) (setTask hidle)
  · cases hcheck
    exact Frame.trans (of_eq rfl rfl : Frame w (w.setSession h _)) (endTask hidle)

/-- Only a commit brings a lease, and only the end of an evaluation ends it. -/
theorem step (I : Inv w) (hstep : w.step a = some w') (hcommit : ∀ millis, a ≠ .commit millis)
    (hfinish : ∀ t ok, a ≠ .finish t ok) : Frame w w' := by
  unfold World.step at hstep
  split at hstep
  · cases hstep
    exact of_eq rfl rfl
  · simp only [map_eq_some_iff] at hstep
    obtain ⟨token, -, rfl⟩ := hstep
    exact of_eq rfl rfl
  next _ t profile sid ttlSec replace binding =>
    split at hstep
    · cases hstep
    next ht =>
      have hidle : ∀ h, w.tasks.lookup t ≠ some (.evaluating h) := fun h h' => ht (mem_of_lookup h')
      unfold World.prepare at hstep
      split at hstep
      · cases hstep
        exact setTask hidle
      · simp only [bind_eq_bind, bind_eq_some_iff, pure_def, some.injEq] at hstep
        obtain ⟨token, -, rfl⟩ := hstep
        exact Frame.trans (of_eq rfl rfl : Frame w { w with nextOwnerToken := token }) (setTask hidle)
  next t call order hlock =>
    split at hstep
    next hcall =>
      cases hstep
      rw [Bool.and_eq_true] at hcall
      have hidle : ∀ h, w.tasks.lookup t ≠ some (.evaluating h) := by
        intro h h'
        have hmay := hcall.1
        unfold World.mayCall at hmay
        split at hmay
        · rw [decide_eq_true_iff, h'] at hmay
          cases hmay
        · exact of_decide_eq_true hmay (mem_of_lookup h')
      exact Frame.trans (of_eq rfl rfl : Frame w (w.begin t call order)) (setTask hidle)
    · cases hstep
  next sec hlock => exact prune hstep
  next t request start before hlock =>
    split at hstep
    next w₁ replacement hselect =>
      cases hstep
      exact (select hselect).trans (of_eq rfl rfl)
    · cases hstep
      exact unlock I hlock (of_eq rfl rfl) rfl
  next millis _ _ _ _ _ _ => exact absurd rfl (hcommit _)
  next t use id expected start before hlock =>
    split at hstep
    · cases hstep
      exact Frame.trans (of_eq rfl rfl : Frame w w.unlock) (setTask fun h => holder I hlock)
    · cases hstep
      exact unlock I hlock (of_eq rfl rfl) rfl
  next hlock =>
    cases hstep
    exact unlock I hlock (of_eq rfl rfl) rfl
  next t id expected start before hlock =>
    split at hstep
    next w₁ hmark =>
      cases hstep
      exact (closeMark hmark).trans (of_eq rfl rfl)
    · cases hstep
      exact unlock I hlock (of_eq rfl rfl) rfl
  next t id' expected id start before hlock =>
    obtain ⟨w₁, hretire, rfl⟩ := map_eq_some_iff.mp hstep
    exact unlock I hlock (retire hretire) (Inv.retire_frame hretire).2.1
  next hlock =>
    cases hstep
    exact of_eq rfl rfl
  next _ t =>
    split at hstep
    next use session ht =>
      have hidle : ∀ h, w.tasks.lookup t ≠ some (.evaluating h) := fun h => by
        rw [ht]
        nofun
      split at hstep
      · cases hstep
        exact Frame.trans (of_eq rfl rfl : Frame w (w.setSession session _)) (setTask hidle)
      · cases hstep
        exact endTask hidle
    · cases hstep
  next _ t =>
    split at hstep
    next use session ht =>
      cases hstep
      exact endTask fun h => by
        rw [ht]
        nofun
    · cases hstep
  next _ t =>
    split at hstep
    next use session ht => exact check ht hstep
    · cases hstep
  next _ t ok => exact absurd rfl (hfinish t ok)
  · cases hstep

end Frame

/-- The lease that a commit brings has the new session. -/
theorem commit_frame (I : Inv w) (hstep : w.step (.commit millis) = some w') :
    (∀ t h, w.tasks.lookup t = some (.evaluating h) → w'.tasks.lookup t = some (.evaluating h)) ∧
      ∀ id entry, w'.state.leases.lookup id = some entry → w.state.leases.lookup id = some entry ∨
        ∃ s, w'.sessions.lookup w.nextAddress = some s ∧ s.leaseId = id := by
  unfold World.step at hstep
  split at hstep
  all_goals try contradiction
  next _ _ millis' t request replacement start before heq hlock =>
    cases heq
    obtain ⟨r, hcommit, rfl⟩ := map_eq_some_iff.mp hstep
    unfold World.commit at hcommit
    split at hcommit
    · cases hcommit
      have F : Frame w (w.unlock.endTask t) := Frame.unlock I hlock (Frame.of_eq rfl rfl) rfl
      exact ⟨F.evaluating, fun id entry he => Or.inl (F.leases id entry he)⟩
    next sequence generation _ =>
      simp only [bind_eq_bind, bind_eq_some_iff, pure_def, some.injEq] at hcommit
      obtain ⟨w₁, hw₁, rfl⟩ := hcommit
      have hadvance : Frame w (w.advance request.sid sequence generation) := Frame.of_eq rfl rfl
      obtain ⟨F, haddress, htasks⟩ : Frame w w₁ ∧ w₁.nextAddress = w.nextAddress ∧ w₁.tasks = w.tasks := by
        cases replacement with
        | none =>
          cases hw₁
          exact ⟨hadvance, rfl, rfl⟩
        | some existing =>
          obtain ⟨entry, -, rfl⟩ := retire_eq_some.mp hw₁
          exact ⟨hadvance.trans (Frame.retire hw₁), rfl, rfl⟩
      have hidle : ∀ h, w₁.tasks.lookup t ≠ some (.evaluating h) := fun h => by
        rw [htasks]
        exact Frame.holder I hlock
      refine ⟨fun t' h ht' => (Frame.endTask hidle).evaluating t' h (F.evaluating t' h ht'),
        fun id entry he => ?_⟩
      have he : (w₁.state.leases.insert (leaseIdText millis sequence) _).lookup id = some entry := he
      rw [lookup_insert_eq] at he
      split at he
      next hid =>
        refine Or.inr ⟨w₁.newSession request (leaseIdText millis sequence) generation, ?_, hid.symm⟩
        rw [← haddress]
        exact lookup_insert _
      next => exact Or.inl (F.leases id entry he)

/-! ## Snapshots and captures -/

variable {l l' : Listing} {c : Captured} {n session millis : ℕ} {entry : RuntimeSessionEntry}

/-- Either the snapshot shows the expiry and all later captures are installed, or the newest capture on
its way does. -/
def Latest (l : Listing) (id : String) (session : ℕ) (c : Captured) : Prop :=
  (c.payload.expiresAtUnixMs = l.expiry session ∧
    ∀ n p, l.pending.lookup n = some p → p.leaseId = id → n < c.order) ∨
  ∃ n p, l.pending.lookup n = some p ∧ p.leaseId = id ∧ p.payload.expiresAtUnixMs = l.expiry session ∧
    c.order < n ∧ ∀ n' p', l.pending.lookup n' = some p' → p'.leaseId = id → n' ≤ n

structure Numbered (l : Listing) : Prop where
  pending : ∀ n p, l.pending.lookup n = some p → p.order = n ∧ n < l.captures
  installed : ∀ id c, l.snapshots.lookup id = some c → c.order < l.captures

/-- What the listing keeps from step to step: a lease nobody evaluates has its expiry in the newest
capture. -/
structure Shown (l : Listing) : Prop where
  world : Inv l.world
  numbered : Numbered l
  latest : ∀ id entry, l.world.state.leases.lookup id = some entry →
    ∃ c, l.snapshots.lookup id = some c ∧
      ((∀ t, l.world.tasks.lookup t ≠ some (.evaluating entry.session)) → Latest l id entry.session c)

namespace Shown

/-- A step that leaves snapshots and expiries alone. -/
theorem frame (S : Shown l) (F : Frame l.world w) (I : Inv w) : Shown { l with world := w } where
  world := I
  numbered := ⟨S.numbered.pending, S.numbered.installed⟩
  latest id entry he := by
    obtain ⟨c, hc, hlatest⟩ := S.latest id entry (F.leases id entry he)
    exact ⟨c, hc, fun hidle => hlatest fun t ht => hidle t (F.evaluating t _ ht)⟩

theorem setExpiry (S : Shown l) {x : Option ℕ} (ht : l.world.tasks.lookup t = some (.evaluating session)) :
    Shown { l with expiries := l.expiries.insert session x } where
  world := S.world
  numbered := ⟨S.numbered.pending, S.numbered.installed⟩
  latest id entry he := by
    obtain ⟨c, hc, hlatest⟩ := S.latest id entry he
    refine ⟨c, hc, fun hidle => ?_⟩
    have hne : entry.session ≠ session := by
      rintro rfl
      exact hidle t ht
    have hexpiry : expiry { l with expiries := l.expiries.insert session x } entry.session =
        l.expiry entry.session := by
      rw [expiry, expiry, lookup_insert_ne hne]
    unfold Latest
    rw [hexpiry]
    exact hlatest hidle

theorem touched (S : Shown l) (ht : l.world.tasks.lookup t = some (.evaluating session)) :
    Shown (l.touched session millis) := by
  unfold Listing.touched
  split
  · exact S
  · split
    · exact S.setExpiry ht
    · exact S

/-- A new lease starts with a snapshot of its own. -/
theorem published (I : Inv w) (S : Shown l)
    (hleases : ∀ id entry, w.state.leases.lookup id = some entry →
      l.world.state.leases.lookup id = some entry ∨
        ∃ s, w.sessions.lookup l.world.nextAddress = some s ∧ s.leaseId = id)
    (hevaluating : ∀ t h, l.world.tasks.lookup t = some (.evaluating h) →
      w.tasks.lookup t = some (.evaluating h)) :
    Shown (published { l with world := w } l.world.nextAddress millis) := by
  unfold Listing.published
  dsimp only
  cases hs : w.sessions.lookup l.world.nextAddress with
  | none =>
    refine S.frame ⟨fun id entry he => (hleases id entry he).resolve_right ?_, hevaluating⟩ I
    rintro ⟨s, hs', -⟩
    rw [hs] at hs'
    cases hs'
  | some s =>
    refine ⟨I, ⟨fun n p hp => ?_, fun id c hc => ?_⟩, fun id entry he => ?_⟩
    · obtain ⟨horder, hlt⟩ := S.numbered.pending n p hp
      exact ⟨horder, Nat.lt_succ_of_lt hlt⟩
    · exact forall_insert (P := fun _ c => c.order < l.captures + 1)
        (fun id c hc => Nat.lt_succ_of_lt (S.numbered.installed id c hc)) (Nat.lt_succ_self _) id c hc
    · obtain ⟨s', hs', hname⟩ := I.core.sessions.entry id entry he
      by_cases hid : id = s.leaseId
      · have hsession : entry.session = l.world.nextAddress :=
          I.core.sessions.unique _ _ s' s hs' hs (hname.trans hid)
        subst hid
        refine ⟨_, lookup_insert _, fun _ => Or.inl ⟨?_, fun n p hp _ => ?_⟩⟩
        · rw [expiry, lookup_insert_eq, if_pos hsession]
          rfl
        · exact (S.numbered.pending n p hp).2
      · have he' : l.world.state.leases.lookup id = some entry := by
          refine (hleases id entry he).resolve_right ?_
          rintro ⟨s'', hs'', rfl⟩
          rw [hs] at hs''
          cases hs''
          exact hid rfl
        obtain ⟨c, hc, hlatest⟩ := S.latest id entry he'
        have hne : entry.session ≠ l.world.nextAddress := by
          obtain ⟨s₀, hs₀, -⟩ := S.world.core.sessions.entry id entry he'
          exact ne_of_lt (S.world.core.sessions.named _ s₀ hs₀).1
        refine ⟨c, (lookup_insert_ne hid).trans hc, fun hidle => ?_⟩
        unfold Latest expiry
        rw [lookup_insert_ne hne]
        exact hlatest fun t ht => hidle t (hevaluating t _ ht)

/-- The end of an evaluation puts the newest capture on its way. -/
theorem evaluated {ok : Bool} (I : Inv w) (S : Shown l) (hs : w.sessions.lookup session = some s)
    (hleases : ∀ id entry, w.state.leases.lookup id = some entry → l.world.state.leases.lookup id = some entry)
    (hevaluating : ∀ t h, h ≠ session → l.world.tasks.lookup t = some (.evaluating h) →
      w.tasks.lookup t = some (.evaluating h)) :
    Shown (evaluated { l with world := w } session millis ok) := by
  unfold Listing.evaluated
  simp only [hs]
  generalize hx : (if ok = true then runtimeSessionExpiryUnixMs millis s.ttlSec
    else expiry { l with world := w } session) = x
  refine ⟨I, ⟨fun n p hp => ?_, fun id c hc => ?_⟩, fun id entry he => ?_⟩
  · exact forall_insert (P := fun n p => p.order = n ∧ n < l.captures + 1)
      (fun n p hp => (S.numbered.pending n p hp).imp_right Nat.lt_succ_of_lt) ⟨rfl, Nat.lt_succ_self _⟩ n p hp
  · exact Nat.lt_succ_of_lt (S.numbered.installed id c hc)
  · obtain ⟨c, hc, hlatest⟩ := S.latest id entry (hleases id entry he)
    obtain ⟨s', hs', hname⟩ := I.core.sessions.entry id entry he
    refine ⟨c, hc, fun hidle => ?_⟩
    by_cases hsession : entry.session = session
    · rw [hsession, hs] at hs'
      cases hs'
      refine Or.inr ⟨l.captures, _, lookup_insert _, hname, ?_, S.numbered.installed id c hc,
        fun n p hp _ => ?_⟩
      · rw [expiry, lookup_insert_eq, if_pos hsession]
        rfl
      · exact forall_insert (P := fun n _ => n ≤ l.captures)
          (fun n p hp => (S.numbered.pending n p hp).2.le) le_rfl n p hp
    · have hid : s.leaseId ≠ id := fun heq =>
        hsession (I.core.sessions.unique _ _ s' s hs' hs (hname.trans heq.symm))
      have hexpiry : ∀ l' : Listing, l'.expiries = l.expiries.insert session x →
          l'.expiry entry.session = l.expiry entry.session := by
        intro l' hl'
        rw [expiry, expiry, hl', lookup_insert_ne hsession]
      unfold Latest
      rw [hexpiry _ rfl]
      obtain ⟨hshown, hbefore⟩ | ⟨n, p, hp, hpid, hshown, hlt, hmax⟩ :=
        hlatest fun t ht => hidle t (hevaluating t _ hsession ht)
      · refine Or.inl ⟨hshown, forall_insert (P := fun n (p : Captured) => p.leaseId = id → n < c.order)
          hbefore fun heq => absurd heq hid⟩
      · have hne : n ≠ l.captures := (S.numbered.pending n p hp).2.ne
        refine Or.inr ⟨n, p, (lookup_insert_ne hne).trans hp, hpid, hshown, hlt, ?_⟩
        exact forall_insert (P := fun n' (p' : Captured) => p'.leaseId = id → n' ≤ n) hmax
          fun heq => absurd heq hid

/-- A snapshot replaces an older one. -/
theorem install (S : Shown l) (hinstall : l.install n = some l')
    (horder : ∀ c c₀, l.pending.lookup n = some c → l.snapshots.lookup c.leaseId = some c₀ →
      c.leaseId ∈ l.world.state.leases → c₀.order < n) : Shown l' := by
  unfold Listing.install at hinstall
  split at hinstall
  next c hlock hc =>
    cases hinstall
    have hn := (S.numbered.pending n c hc).1
    refine ⟨S.world, ⟨fun n' p hp => ?_, fun id c' hc' => ?_⟩, fun id entry he => ?_⟩
    · exact S.numbered.pending n' p (lookup_of_erase hp).2
    · dsimp only at hc'
      split at hc'
      · refine forall_insert (P := fun _ c => c.order < l.captures) S.numbered.installed ?_ id c' hc'
        exact hn ▸ (S.numbered.pending n c hc).2
      · exact S.numbered.installed id c' hc'
    · obtain ⟨c₀, hc₀, hlatest⟩ := S.latest id entry he
      by_cases hid : id = c.leaseId
      · subst hid
        have hactive : c.leaseId ∈ l.world.state.leases := mem_of_lookup he
        refine ⟨c, by simp only [if_pos hactive, lookup_insert], fun hidle => ?_⟩
        have hlt := horder c c₀ hc hc₀ hactive
        obtain ⟨-, hbefore⟩ | ⟨m, p, hp, hpid, hshown, -, hmax⟩ := hlatest hidle
        · exact absurd (hbefore n c hc rfl) (not_lt.2 hlt.le)
        · by_cases hm : m = n
          · subst hm
            rw [hc] at hp
            cases hp
            refine Or.inl ⟨hshown, fun n' p' hp' hpid' => ?_⟩
            obtain ⟨hne, hp'⟩ := lookup_of_erase hp'
            exact hn ▸ lt_of_le_of_ne (hmax n' p' hp' hpid') hne
          · refine Or.inr ⟨m, p, ?_, hpid, hshown, ?_, fun n' p' hp' hpid' => ?_⟩
            · rw [lookup_erase_eq, if_neg hm, hp]
            · exact hn ▸ lt_of_le_of_ne (hmax n c hc rfl) (Ne.symm hm)
            · exact hmax n' p' (lookup_of_erase hp').2 hpid'
      · refine ⟨c₀, ?_, fun hidle => ?_⟩
        · dsimp only
          split
          · rw [lookup_insert_ne hid, hc₀]
          · exact hc₀
        · obtain ⟨hshown, hbefore⟩ | ⟨m, p, hp, hpid, hshown, hlt, hmax⟩ := hlatest hidle
          · exact Or.inl ⟨hshown, fun n' p' hp' => hbefore n' p' (lookup_of_erase hp').2⟩
          · have hm : m ≠ n := by
              rintro rfl
              rw [hc] at hp
              cases hp
              exact hid hpid.symm
            refine Or.inr ⟨m, p, ?_, hpid, hshown, hlt, fun n' p' hp' => hmax n' p' (lookup_of_erase hp').2⟩
            rw [lookup_erase_eq, if_neg hm, hp]
  · cases hinstall

/-- The evaluation that ends here held its session until now. -/
theorem finish_eq (I : Inv w) (hstep : w.step (.finish t ok) = some w') :
    ∃ session s, w.tasks.lookup t = some (.evaluating session) ∧ w'.sessions.lookup session = some s ∧
      w'.state = w.state ∧ ∀ t' h, h ≠ session → w.tasks.lookup t' = some (.evaluating h) →
        w'.tasks.lookup t' = some (.evaluating h) := by
  simp only [World.step] at hstep
  split at hstep
  next session ht =>
    cases hstep
    obtain ⟨s, hs, -⟩ := I.core.locks t _ session ht (.inr rfl)
    obtain ⟨s', hs'⟩ : ∃ s', (w.finish t session ok).sessions.lookup session = some s' :=
      ⟨_, lookup_adjust_self.trans (congrArg (Option.map _) hs)⟩
    refine ⟨session, s', ht, hs', rfl, fun t' h hne ht' => ?_⟩
    · have hne' : t' ≠ t := by
        rintro rfl
        rw [ht] at ht'
        cases ht'
        exact hne rfl
      exact (lookup_erase_ne hne').trans ht'
  · cases hstep

/-- An installation that replaces no later snapshot of an active lease. -/
def inOrder (l : Listing) : Act → Bool
  | .base .. => true
  | .install n =>
    match l.pending.lookup n with
    | none => true
    | some c => c.leaseId ∈ l.world.state.leases → (l.snapshots.lookup c.leaseId).all (·.order < n)

theorem step (S : Shown l) (horder : inOrder l a) (hstep : l.step a = some l') : Shown l' := by
  cases a with
  | install n =>
    refine S.install hstep fun c c₀ hc hc₀ hactive => ?_
    simp only [inOrder, hc, decide_eq_true_eq] at horder
    have hall := horder hactive
    rw [hc₀] at hall
    exact of_decide_eq_true hall
  | base a millis =>
    simp only [Listing.step, bind_eq_bind, bind_eq_some_iff] at hstep
    obtain ⟨w, hw, hstep⟩ := hstep
    have I : Inv w := S.world.step hw
    split at hstep
    · cases hstep
      obtain ⟨hevaluating, hleases⟩ := commit_frame S.world hw
      exact S.published I hleases hevaluating
    next t =>
      have S' : Shown { l with world := w } :=
        S.frame (Frame.step S.world hw nofun nofun) I
      split at hstep
      next session ht =>
        cases hstep
        exact S'.touched ht
      · cases hstep
        exact S'
    next t ok =>
      obtain ⟨session, s, ht, hs, hstate, hevaluating⟩ := finish_eq S.world hw
      rw [ht] at hstep
      cases hstep
      exact S.evaluated I hs (fun id entry he => by rwa [hstate] at he) hevaluating
    next hcommit hcheck hfinish =>
      cases hstep
      exact S.frame (Frame.step S.world hw hcommit hfinish) I

theorem new : Shown (new nextOwnerToken) where
  world := Inv.new
  numbered := ⟨fun _ _ hp => (nomatch hp), fun _ _ hc => nomatch hc⟩
  latest _ _ he := nomatch he

end Shown

/-! ## Whole runs -/

/-- An evaluation of the lease is between its check and the installation of its snapshot. -/
def Listing.InProgress (l : Listing) (id : String) (session : ℕ) : Prop :=
  (∃ t, l.world.tasks.lookup t = some (.evaluating session)) ∨
    ∃ n c, l.pending.lookup n = some c ∧ c.leaseId = id

/-- A lease is listed with the expiry that `status` reports, unless an evaluation is in progress. -/
structure Listing.Agrees (l : Listing) : Prop where
  shown : ∀ id entry s, l.world.state.leases.lookup id = some entry →
    l.world.sessions.lookup entry.session = some s → ¬ l.InProgress id entry.session →
    (l.listPayload entry).map StatusPayload.expiresAtUnixMs =
      some (l.status entry.session s).expiresAtUnixMs
  listed : ∀ sid profile p, p ∈ l.list sid profile →
    ∃ entry s, l.world.state.leases.lookup p.leaseId = some entry ∧
      l.world.sessions.lookup entry.session = some s ∧
      (¬ l.InProgress p.leaseId entry.session →
        p.expiresAtUnixMs = (l.status entry.session s).expiresAtUnixMs)

/-- No snapshot gives way to an older one. -/
def Listing.Newer (l l' : Listing) : Prop :=
  ∀ id c c', l.snapshots.lookup id = some c → l'.snapshots.lookup id = some c' → c.order ≤ c'.order

theorem Shown.expiry_eq (S : Shown l) (s : RuntimeSession)
    (he : l.world.state.leases.lookup id = some entry) (hidle : ¬ l.InProgress id entry.session) :
    (l.listPayload entry).map StatusPayload.expiresAtUnixMs =
      some (l.status entry.session s).expiresAtUnixMs := by
  obtain ⟨c, hc, hlatest⟩ := S.latest id entry he
  have hshown : c.payload.expiresAtUnixMs = l.expiry entry.session := by
    obtain ⟨hshown, -⟩ | ⟨n, p, hp, hpid, -⟩ := hlatest fun t ht => hidle (Or.inl ⟨t, ht⟩)
    · exact hshown
    · exact absurd (Or.inr ⟨n, p, hp, hpid⟩) hidle
  rw [← S.world.core.maps.keyed id entry he] at hc
  rw [listPayload, hc, map_some, map_some]
  exact congrArg some hshown

theorem Shown.agrees (S : Shown l) : l.Agrees := by
  refine ⟨fun id entry s he _ => S.expiry_eq s he, fun sid profile p hp => ?_⟩
  obtain ⟨entry, hentry, hpayload⟩ := List.mem_filterMap.mp hp
  have hvalue : entry ∈ l.world.state.leases.values :=
    List.mem_of_mem_filter (List.mem_mergeSort.mp hentry)
  obtain ⟨id, he⟩ := mem_values_iff.mp hvalue
  have hkeyed := S.world.core.maps.keyed id entry he
  have hname : p.leaseId = id := by
    obtain ⟨c, -, rfl⟩ := map_eq_some_iff.mp hpayload
    exact hkeyed
  obtain ⟨s, hs, -⟩ := S.world.core.sessions.entry id entry he
  refine ⟨entry, s, hname ▸ he, hs, fun hidle => ?_⟩
  have hexpiry := S.expiry_eq s he (hname ▸ hidle)
  rw [hpayload, map_some] at hexpiry
  exact some.inj hexpiry

theorem Listing.Newer.of_eq (h : l'.snapshots = l.snapshots) : l.Newer l' := by
  intro id c c' hc hc'
  rw [h, hc] at hc'
  cases hc'
  exact le_rfl

theorem Shown.newer (S : Shown l) (horder : Shown.inOrder l a) (hstep : l.step a = some l') :
    l.Newer l' := by
  cases a with
  | install n =>
    simp only [Listing.step, Listing.install] at hstep
    split at hstep
    next c hlock hc =>
      cases hstep
      have hn := (S.numbered.pending n c hc).1
      simp only [Shown.inOrder, hc, decide_eq_true_eq] at horder
      intro id c₀ c' hc₀ hc'
      dsimp only at hc'
      split at hc'
      next hactive =>
        rw [lookup_insert_eq] at hc'
        split at hc'
        next hid =>
          cases hc'
          have hall := horder hactive
          rw [← hid, hc₀] at hall
          exact hn ▸ (of_decide_eq_true hall : c₀.order < n).le
        next =>
          rw [hc₀] at hc'
          cases hc'
          exact le_rfl
      next =>
        rw [hc₀] at hc'
        cases hc'
        exact le_rfl
    · cases hstep
  | base a millis =>
    simp only [Listing.step, bind_eq_bind, bind_eq_some_iff] at hstep
    obtain ⟨w, -, hstep⟩ := hstep
    split at hstep
    · cases hstep
      unfold Listing.published
      split
      · exact Newer.of_eq rfl
      · intro id c c' hc hc'
        have hlt := S.numbered.installed id c hc
        rw [lookup_insert_eq] at hc'
        split at hc'
        · cases hc'
          exact hlt.le
        · rw [hc] at hc'
          cases hc'
          exact le_rfl
    · split at hstep
      · cases hstep
        unfold Listing.touched
        split
        · exact Newer.of_eq rfl
        · split <;> exact Newer.of_eq rfl
      · cases hstep
        exact Newer.of_eq rfl
    · split at hstep
      · cases hstep
        unfold Listing.evaluated
        split <;> exact Newer.of_eq rfl
      · cases hstep
        exact Newer.of_eq rfl
    · cases hstep
      exact Newer.of_eq rfl

/-- Every installation of the run replaces no later snapshot. -/
def inOrderRun (l : Listing) : List Act → Bool
  | [] => true
  | a :: as => Shown.inOrder l a && (l.step a).all fun l' => inOrderRun l' as

theorem Shown.run (S : Shown l) (horder : inOrderRun l as) (hrun : l.run as = some l') :
    Shown l' ∧ ∀ before a after l₁ l₂, as = before ++ a :: after → l.run before = some l₁ →
      l₁.step a = some l₂ → Shown l₁ ∧ l₁.Newer l₂ := by
  induction as generalizing l with
  | nil =>
    cases hrun
    exact ⟨S, fun before a after _ _ heq => absurd heq.symm (by simp)⟩
  | cons a as ih =>
    obtain ⟨l₀, hstep, hrest⟩ := bind_eq_some_iff.mp hrun
    rw [inOrderRun, Bool.and_eq_true, hstep, all_some] at horder
    obtain ⟨hend, hall⟩ := ih (S.step horder.1 hstep) horder.2 hrest
    refine ⟨hend, fun before a' after l₁ l₂ heq hbefore hstep' => ?_⟩
    cases before with
    | nil =>
      cases heq
      cases hbefore
      exact ⟨S, S.newer horder.1 hstep'⟩
    | cons b before =>
      cases heq
      rw [run, hstep, bind_some] at hbefore
      exact hall before a' after l₁ l₂ rfl hbefore hstep'

/-- In every run in which evaluations install their snapshots in the order in which they held the
session, every state lists the expiry that `status` reports of each lease that is not being evaluated,
and no snapshot gives way to an older one. -/
theorem Listing.agrees_run {nextOwnerToken : ℕ} {as : List Act}
    (horder : inOrderRun (new nextOwnerToken) as) (hrun : (new nextOwnerToken).run as = some l) :
    l.Agrees ∧ ∀ before a after l₁ l₂, as = before ++ a :: after →
      (new nextOwnerToken).run before = some l₁ → l₁.step a = some l₂ → l₁.Agrees ∧ l₁.Newer l₂ := by
  obtain ⟨S, hall⟩ := Shown.new.run horder hrun
  refine ⟨S.agrees, fun before a after l₁ l₂ heq hbefore hstep => ?_⟩
  obtain ⟨S₁, hnewer⟩ := hall before a after l₁ l₂ heq hbefore hstep
  exact ⟨S₁.agrees, hnewer⟩

namespace Example

/-- One caller's evaluation of a lease, up to the capture of its snapshot. -/
def evaluation (t millis : ℕ) (id : String) : List Act :=
  (lookup t id ++ [World.Action.lockSession t, .check t, .finish t true]).map (Act.base · millis)

def finiteLease : List Act :=
  (insertion 0 "agent" (some 60) false (some ⟨1, .bound⟩) [] 20).map (Act.base · 20)

/-- Two evaluations one after the other; the first to capture is the last to install. -/
def overtaken : List Act :=
  finiteLease ++ evaluation 1 1000 "rt_20_1" ++ evaluation 2 2000 "rt_20_1" ++ [.install 2, .install 1]

theorem overtaken_not_agrees : ∃ l, (new 0).run overtaken = some l ∧ ¬ l.Agrees := by
  obtain ⟨l, hrun, hl⟩ := (any_eq_true ..).mp
    (show ((new 0).run overtaken).any (fun l =>
        l.world.state.leases.lookup "rt_20_1" =
            some ⟨0, "agent", "rt_20_1", 1, .systemLuaLib, some 1⟩ ∧
          (l.world.sessions.lookup 0).isSome ∧ l.world.tasks.keys = [] ∧ l.pending.keys = [] ∧
          (l.snapshots.lookup "rt_20_1").map (·.payload.expiresAtUnixMs) = some (some 61000) ∧
          l.expiry 0 = some 62000) by decide +kernel)
  obtain ⟨hentry, hsession, htasks, hpending, hshown, hexpiry⟩ := of_decide_eq_true hl
  obtain ⟨s, hs⟩ := isSome_iff_exists.mp hsession
  refine ⟨l, hrun, fun A => ?_⟩
  have hidle : ¬ l.InProgress "rt_20_1" 0 := by
    rintro (⟨t, ht⟩ | ⟨n, c, hc, -⟩)
    · have hmem := mem_keys.1 (mem_of_lookup ht)
      rw [htasks] at hmem
      cases hmem
    · have hmem := mem_keys.1 (mem_of_lookup hc)
      rw [hpending] at hmem
      cases hmem
  obtain ⟨c, hc, hshown⟩ := map_eq_some_iff.mp hshown
  have hagree := A.shown "rt_20_1" _ s hentry hs hidle
  rw [listPayload, hc] at hagree
  have hequal : c.payload.expiresAtUnixMs = l.expiry 0 := some.inj hagree
  rw [hshown, hexpiry] at hequal
  exact absurd hequal (by decide)

/-- The same evaluations, installed as they were captured. -/
def installedInOrder : List Act :=
  finiteLease ++ evaluation 1 1000 "rt_20_1" ++ evaluation 2 2000 "rt_20_1" ++ [.install 1, .install 2]

theorem agrees_installedInOrder : ∃ l, (new 0).run installedInOrder = some l ∧ l.Agrees := by
  obtain ⟨l, hrun⟩ := isSome_iff_exists.mp
    (show ((new 0).run installedInOrder).isSome by decide +kernel)
  exact ⟨l, hrun, (agrees_run (by decide +kernel) hrun).1⟩

end Example

end LuaSkills.RuntimeLease
