import LuaSkills.RuntimeLease.Runs

/-!
# Retired leases and running evaluations

Closing and expiry retire a lease that nobody evaluates, and nobody evaluates it afterwards. A
replacement checks the lease under the session's lock, gives that lock back, and retires the lease
later: an evaluation that starts in between runs on under a retired lease.
-/

namespace LuaSkills.RuntimeLease

open AList List Option World

variable {id : String} {code : TerminalCode} {entry : RuntimeSessionEntry} {w w' : World} {sec : Section}
  {t h : ℕ} {tasks : AssocMap ℕ Task}

/-- The lease that the call under the lock is about to retire. -/
def Phase.pendingId : Phase → Option String
  | .chosen replacement => replacement
  | .closing id => some id
  | _ => none

structure Quiet (w : World) : Prop where
  idle : ∀ t h s, w.tasks.lookup t = some (.evaluating h) → w.sessions.lookup h = some s →
    ∀ code token lapsed, .retired s.leaseId code token lapsed ∉ w.log
  pending : ∀ sec id entry, w.lock = some sec → sec.phase.pendingId = some id →
    w.state.leases.lookup id = some entry → ∀ t, w.tasks.lookup t ≠ some (.evaluating entry.session)

/-- The session of the lease that an insertion has chosen to replace. -/
def World.chosenSession (w : World) : Option ℕ := do
  let sec ← w.lock
  match sec.phase with
  | .chosen (some id) => (w.state.leases.lookup id).map RuntimeSessionEntry.session
  | _ => none

/-- No evaluation passes its active check on that session. -/
def undisturbed (w : World) : Action → Bool
  | .check t => w.chosenSession.all fun h => w.tasks.lookup t ≠ some (.locked .eval h) ||
      (w.sessions.lookup h).any fun s => (s.inactiveError w.now).isSome
  | _ => true

def undisturbedRun (w : World) : List Action → Bool
  | [] => true
  | a :: as => undisturbed w a && (w.step a).all fun w' => undisturbedRun w' as

namespace Quiet

/-- A step that retires nothing and lets nobody start. -/
theorem keep (Q : Quiet w)
    (hlog : ∀ id code token lapsed, .retired id code token lapsed ∈ w'.log →
      .retired id code token lapsed ∈ w.log)
    (htasks : ∀ t h, w'.tasks.lookup t = some (.evaluating h) → w.tasks.lookup t = some (.evaluating h))
    (hnames : ∀ t h s', w'.tasks.lookup t = some (.evaluating h) → w'.sessions.lookup h = some s' →
      ∃ s, w.sessions.lookup h = some s ∧ s.leaseId = s'.leaseId)
    (hpending : ∀ sec id entry, w'.lock = some sec → sec.phase.pendingId = some id →
      w'.state.leases.lookup id = some entry → ∀ t, w'.tasks.lookup t ≠ some (.evaluating entry.session)) :
    Quiet w' := by
  refine ⟨fun t h s' ht hs' code token lapsed hmem => ?_, hpending⟩
  obtain ⟨s, hs, hname⟩ := hnames t h s' ht hs'
  exact Q.idle t h s (htasks t h ht) hs code token lapsed (hname ▸ hlog _ _ _ _ hmem)

theorem retire (C : Core w closing) (Q : Quiet w) (h : w.retire id code = some w')
    (hidle : ∀ entry, w.state.leases.lookup id = some entry →
      ∀ t, w.tasks.lookup t ≠ some (.evaluating entry.session)) :
    ∀ t h s, w'.tasks.lookup t = some (.evaluating h) → w'.sessions.lookup h = some s →
      ∀ code token lapsed, .retired s.leaseId code token lapsed ∉ w'.log := by
  obtain ⟨entry, hentry, rfl⟩ := retire_eq_some.mp h
  intro t h s ht hs code' token lapsed hmem
  obtain ⟨s₀, hs₀, hname, ⟨heq, -⟩ | ⟨hne, -⟩⟩ := lookup_adjust_named hs fun _ => rfl
  · exact hidle entry hentry t (heq ▸ ht)
  · rcases mem_append.mp hmem with hmem | hmem
    · exact Q.idle t h s₀ ht hs₀ code' token lapsed (hname ▸ hmem)
    · obtain ⟨s₁, hs₁, hname₁⟩ := C.sessions.entry id entry hentry
      have hid : s.leaseId = id := by
        cases mem_singleton.mp hmem
        rfl
      exact hne (C.sessions.unique h _ s₀ s₁ hs₀ hs₁ (hname.symm.trans (hid.trans hname₁.symm)))

theorem unlockedBy_idle (I : Inv w) (hs : w.sessions.lookup h = some s) (hfree : s.lockedBy = none) :
    w.tasks.lookup t ≠ some (.evaluating h) := by
  intro ht
  obtain ⟨s', hs', hlocked⟩ := I.evaluating_locked ht
  rw [hs] at hs'
  cases hs'
  rw [hfree] at hlocked
  cases hlocked

theorem new {nextOwnerToken : ℕ} : Quiet (new nextOwnerToken) :=
  ⟨fun _ _ _ ht => (nomatch ht), fun _ _ _ hlock => (nomatch hlock)⟩

/-- The lease identity of a session survives whatever its holder does to it. -/
theorem setSession {f : RuntimeSession → RuntimeSession} (Q : Quiet w)
    (hname : ∀ s, (f s).leaseId = s.leaseId)
    (htasks : ∀ t h, tasks.lookup t = some (.evaluating h) → w.tasks.lookup t = some (.evaluating h)) :
    Quiet { w with sessions := w.sessions.adjust h f, tasks := tasks } := by
  refine Q.keep (fun _ _ _ _ hmem => hmem) htasks (fun t h' s' _ hs' => ?_)
    fun sec id entry hlock hphase hentry t ht => Q.pending sec id entry hlock hphase hentry t (htasks t _ ht)
  obtain ⟨s, hs, heq, -⟩ := lookup_adjust_named hs' hname
  exact ⟨s, hs, heq.symm⟩

theorem setTasks {next now : ℕ} (Q : Quiet w)
    (htasks : ∀ t h, tasks.lookup t = some (.evaluating h) → w.tasks.lookup t = some (.evaluating h)) :
    Quiet { w with now := now, nextOwnerToken := next, tasks := tasks } :=
  Q.keep (fun _ _ _ _ hmem => hmem) htasks (fun _ _ s' _ hs' => ⟨s', hs', rfl⟩)
    fun sec id entry hlock hphase hentry t ht => Q.pending sec id entry hlock hphase hentry t (htasks t _ ht)

theorem insert_evaluating (h' : (tasks.insert t task).lookup t' = some (.evaluating h))
    (htask : ∀ h, task ≠ .evaluating h) : tasks.lookup t' = some (.evaluating h) := by
  rw [lookup_insert_eq] at h'
  split at h'
  · exact (htask h (some.inj h')).elim
  · exact h'

/-! ## Sections -/

theorem unlock (Q : Quiet w) : Quiet (w.unlock.endTask t) :=
  Q.keep (fun _ _ _ _ hmem => hmem) (fun _ _ ht => (lookup_of_erase ht).2) (fun _ _ s' _ hs' => ⟨s', hs', rfl⟩)
    fun _ _ _ hlock => nomatch hlock

/-- A section that only moves the call on. -/
theorem setPhase {phase : Phase} (Q : Quiet w) (hpending : ∀ id entry, phase.pendingId = some id →
    w.state.leases.lookup id = some entry → ∀ t, w.tasks.lookup t ≠ some (.evaluating entry.session)) :
    Quiet (w.setPhase sec phase) := by
  refine Q.keep (fun _ _ _ _ hmem => hmem) (fun _ _ ht => ht) (fun _ _ s' _ hs' => ⟨s', hs', rfl⟩)
    fun sec' id entry hlock hphase => ?_
  cases hlock
  exact hpending id entry hphase

/-- A retirement within a call. -/
theorem retirePhase {phase : Phase} (I : Inv w) (Q : Quiet w) (h : w.retire id code = some w')
    (hidle : ∀ entry, w.state.leases.lookup id = some entry →
      ∀ t, w.tasks.lookup t ≠ some (.evaluating entry.session))
    (hphase : phase.pendingId = none) : Quiet (w'.setPhase sec phase) := by
  have hquiet := Q.retire I.core h hidle
  refine ⟨hquiet, fun sec' id' entry hlock hpending => ?_⟩
  cases hlock
  rw [show phase.pendingId = some id' from hpending] at hphase
  cases hphase

theorem prune (I : Inv w) (Q : Quiet w) (hlock : w.lock = some sec) (h : w.prune sec = some w') : Quiet w' := by
  unfold World.prune at h
  split at h
  · cases h
    exact Q.setPhase nofun
  next id expired hphase =>
    cases h
    cases hretire : w.retire id .expired with
    | none => exact Q.setPhase nofun
    | some w₁ =>
      refine Q.retirePhase I hretire (fun entry hentry => ?_) rfl
      obtain ⟨s, hs, -⟩ := I.core.sessions.entry id entry hentry
      exact (I.holding.expired sec _ _ hlock hphase id mem_cons_self entry s hentry hs).2
  · cases h
    refine Q.keep (fun _ _ _ _ hmem => hmem) (fun _ _ ht => ht) (fun _ _ s' _ hs' => ⟨s', hs', rfl⟩)
      fun sec' id entry hlock' hpending => ?_
    cases hlock'
    cases hpending
  · cases h

theorem select (I : Inv w) (Q : Quiet w) (h : w.select request = .ok (w', replacement)) :
    Quiet (w'.setPhase sec (.chosen replacement)) := by
  unfold World.select at h
  split at h
  · cases h
    exact Q.setPhase nofun
  next existing hindex =>
    obtain ⟨entry, hentry, -⟩ := (I.core.maps.index request.sid existing).mp hindex
    obtain ⟨s, hs, -⟩ := I.core.sessions.entry existing entry hentry
    rw [hentry, bind_some, hs] at h
    dsimp only at h
    split at h
    · split at h <;> cases h
    next hfree =>
      have hidle : ∀ entry', w.state.leases.lookup existing = some entry' →
          ∀ t, w.tasks.lookup t ≠ some (.evaluating entry'.session) := by
        intro entry' hentry' t
        cases hentry.symm.trans hentry'
        exact unlockedBy_idle I hs (by simpa using hfree)
      split at h
      next code error _ =>
        cases h
        cases hretire : w.retire existing code with
        | none => exact Q.setPhase nofun
        | some w₁ => exact Q.retirePhase I hretire hidle rfl
      · split at h
        · cases h
          refine Q.setPhase fun id entry' heq => ?_
          cases heq
          exact hidle entry'
        · cases h

theorem commit (I : Inv w) (Q : Quiet w) (hlock : w.lock = some sec)
    (hphase : sec.phase = .chosen replacement) (h : w.commit request replacement millis = some r) :
    Quiet ((r.toOption.getD w).unlock.endTask sec.task) := by
  unfold World.commit at h
  split at h
  · cases h
    exact Q.unlock
  next sequence generation hprepare =>
    simp only [Option.bind_eq_bind, Option.bind_eq_some_iff, Option.pure_def, Option.some.injEq] at h
    obtain ⟨w₁, hw₁, rfl⟩ := h
    have hclosing : closingId w.lock = none := by
      rw [hlock]
      exact congrArg Phase.closingId hphase
    have C₀ := I.coreOf hclosing
    simp only [prepareLease, nextSequence, nextGeneration, Except.bind_eq_ok, okOr_eq_ok,
      checkedAdd_eq_some] at hprepare
    obtain ⟨_, -, _, ⟨_, rfl⟩, _, ⟨_, rfl⟩, _, _, heq⟩ := hprepare
    cases heq
    have C := C₀.advance request.sid (Nat.le_succ _) (Nat.le_succ _)
    have Q₀ : ∀ m n, Quiet (w.advance request.sid m n) := fun _ _ => ⟨Q.idle, Q.pending⟩
    obtain ⟨hidle, L⟩ : (∀ t h s, w₁.tasks.lookup t = some (.evaluating h) →
        w₁.sessions.lookup h = some s → ∀ code token lapsed, .retired s.leaseId code token lapsed ∉ w₁.log) ∧
          Core w₁ none := by
      cases replacement with
      | none =>
        cases hw₁
        exact ⟨(Q₀ _ _).idle, C⟩
      | some existing =>
        exact ⟨(Q₀ _ _).retire C hw₁ fun entry => Q.pending sec existing entry hlock (by rw [hphase]; rfl),
          C.retire hw₁ (by rintro _ ⟨⟩)⟩
    refine ⟨fun t h s ht hs code token lapsed hmem => ?_, fun _ _ _ hlock => by cases hlock⟩
    obtain ⟨-, ht⟩ := lookup_of_erase ht
    obtain ⟨s₁, hs₁, -⟩ := L.locks t _ h ht (.inr rfl)
    have hs : (w₁.sessions.insert w₁.nextAddress _).lookup h = some s := hs
    rw [lookup_insert_ne (ne_of_lt (L.sessions.named h s₁ hs₁).1)] at hs
    rcases mem_append.mp hmem with hmem | hmem
    · exact hidle t h s ht hs code token lapsed hmem
    · cases mem_singleton.mp hmem

/-- The lease that `close` marks is evaluated by nobody while its mark is set. -/
theorem closeMark (I : Inv w) (Q : Quiet w) (h : w.closeMark id expected = .ok w') :
    Quiet (w'.setPhase sec (.closing id)) := by
  unfold World.closeMark at h
  split at h
  next entry hentry =>
    simp only [Except.bind_eq_ok, tryLockSession, okOr_eq_ok, refuseIf_eq_ok] at h
    obtain ⟨s, ⟨s', hs, _, hfree, heq⟩, _, -, heq'⟩ := h
    cases heq
    cases heq'
    have Q₁ : Quiet (w.setSession entry.session fun s =>
        { s with terminalState := some .closed, closed := true }) :=
      Q.setSession (fun _ => rfl) fun _ _ ht => ht
    refine Quiet.setPhase Q₁ fun id' entry' heq hentry' t => ?_
    cases heq
    cases hentry.symm.trans hentry'
    have hidle : w.tasks.lookup t ≠ some (.evaluating entry.session) :=
      unlockedBy_idle I hs (by simpa using hfree)
    exact hidle
  · cases h

theorem closeRetire (I : Inv w) (Q : Quiet w) (hlock : w.lock = some sec) (hphase : sec.phase = .closing id)
    (h : w.retire id .closed = some w') : Quiet (w'.unlock.endTask t) := by
  have hidle := Q.retire I.core h fun entry => Q.pending sec id entry hlock (by rw [hphase]; rfl)
  refine ⟨fun t h s ht => hidle t h s (lookup_of_erase ht).2, fun _ _ _ hlock => (nomatch hlock)⟩

/-- The check of an evaluation refuses a retired lease, and by assumption does not start one that is
about to be replaced. -/
theorem check (I : Inv w) (Q : Quiet w) (hundisturbed : undisturbed w (.check t))
    (ht : w.tasks.lookup t = some (.locked use h)) (hw' : w.check t use h = some w') : Quiet w' := by
  simp only [World.check, Option.bind_eq_bind, Option.bind_eq_some_iff, Option.pure_def] at hw'
  obtain ⟨s, hs, hw'⟩ := hw'
  split at hw'
  next s' hactive =>
    cases hw'
    have hnone : s.inactiveError w.now = none := by
      unfold RuntimeSession.ensureActive at hactive
      split at hactive
      · cases hactive
      next hnone => exact hnone
    have hterminal := (Inv.inactiveError_eq_none hnone).1
    refine ⟨fun t' h' s₁ ht' hs₁ code token lapsed hmem => ?_, fun sec id entry hlock hpending hentry t' ht' => ?_⟩
    · obtain ⟨s₀, hs₀, hname, -⟩ := lookup_adjust_named hs₁ fun s => (Inv.touch_frame s w.now).1
      have ht' : (w.tasks.insert t (.evaluating h)).lookup t' = some (.evaluating h') := ht'
      rw [lookup_insert_eq] at ht'
      split at ht'
      · cases ht'
        rw [hs] at hs₀
        cases hs₀
        exact I.core.sessions.marked h s code token lapsed hs (hname ▸ hmem) hterminal
      · exact Q.idle t' h' s₀ ht' hs₀ code token lapsed (hname ▸ hmem)
    · have ht' : (w.tasks.insert t (.evaluating h)).lookup t' = some (.evaluating entry.session) := ht'
      rw [lookup_insert_eq] at ht'
      split at ht'
      · have hh := Task.evaluating.inj (some.inj ht')
        cases hphase : sec.phase with
        | chosen replacement =>
          rw [hphase] at hpending
          have hpending : replacement = some id := hpending
          have hlock : w.lock = some sec := hlock
          have hentry : w.state.leases.lookup id = some entry := hentry
          have hchosen : w.chosenSession = some entry.session := by
            simp only [chosenSession, hlock, bind_eq_bind, bind_some, hphase, hpending, hentry,
              map_some]
          simp only [undisturbed, hchosen, all_some, ← hh, hs, any_some, hnone, isSome_none,
            Bool.or_false, decide_eq_true_iff] at hundisturbed
          exact hundisturbed ht
        | closing id' =>
          -- The mark that `close` set already refuses it.
          rw [hphase] at hpending
          cases hpending
          refine (I.core.sessions.closing id entry s ?_ hentry (hh ▸ hs) hterminal).elim
          have hlock : w.lock = some sec := hlock
          rw [hlock]
          exact congrArg Phase.closingId hphase
        | _ =>
          rw [hphase] at hpending
          cases hpending
      · exact Q.pending sec id entry hlock hpending hentry t' ht'
  · cases hw'
    exact Q.setSession (fun _ => rfl) fun _ _ ht => (lookup_of_erase ht).2

/-! ## Whole runs -/

theorem step {a : Action} (I : Inv w) (Q : Quiet w) (hundisturbed : undisturbed w a)
    (h : w.step a = some w') : Quiet w' := by
  unfold World.step at h
  split at h
  · cases h
    exact Q.setTasks fun _ _ ht => ht
  · obtain ⟨token, -, rfl⟩ := map_eq_some_iff.mp h
    exact Q.setTasks fun _ _ ht => ht
  next t profile sid ttlSec replace binding _ =>
    split at h
    · cases h
    · unfold prepare at h
      split at h
      · cases h
        exact Q.setTasks fun _ _ ht => insert_evaluating ht fun _ => nofun
      · simp only [Option.bind_eq_bind, Option.bind_eq_some_iff, Option.pure_def, Option.some.injEq] at h
        obtain ⟨token, -, rfl⟩ := h
        exact Q.setTasks fun _ _ ht => insert_evaluating ht fun _ => nofun
  next t call order hlock =>
    split at h
    · cases h
      have hcall : ∀ h, callTask call ≠ .evaluating h := fun h => by cases call <;> nofun
      refine Q.keep (fun _ _ _ _ hmem => hmem) (fun _ _ ht => insert_evaluating ht hcall)
        (fun _ _ s' _ hs' => ⟨s', hs', rfl⟩) fun sec' id entry hlock' hpending => ?_
      cases hlock'
      cases hpending
    · cases h
  next sec hlock => exact Q.prune I hlock h
  next t request start before hlock =>
    split at h
    next w₁ replacement hselect =>
      cases h
      exact Q.select I hselect
    · cases h
      exact Q.unlock
  next millis t request replacement start before hlock =>
    obtain ⟨r, hcommit, rfl⟩ := map_eq_some_iff.mp h
    exact Q.commit I hlock rfl hcommit
  next t use id expected start before hlock =>
    split at h
    · cases h
      exact Q.keep (fun _ _ _ _ hmem => hmem) (fun _ _ ht => insert_evaluating ht fun _ => nofun)
        (fun _ _ s' _ hs' => ⟨s', hs', rfl⟩) fun _ _ _ hlock => nomatch hlock
    · cases h
      exact Q.unlock
  next hlock =>
    cases h
    exact Q.unlock
  next t id expected start before hlock =>
    split at h
    next w₁ hmark =>
      cases h
      exact Q.closeMark I hmark
    · cases h
      exact Q.unlock
  next t id' expected id start before hlock =>
    obtain ⟨w₁, hretire, rfl⟩ := map_eq_some_iff.mp h
    exact Q.closeRetire I hlock rfl hretire
  next hlock =>
    cases h
    exact ⟨Q.idle, Q.pending⟩
  next t _ =>
    split at h
    next use session ht =>
      split at h
      · cases h
        exact Q.setSession (fun _ => rfl) fun _ _ ht => insert_evaluating ht fun _ => nofun
      · cases h
        exact Q.setTasks fun _ _ ht => (lookup_of_erase ht).2
    · cases h
  next t _ =>
    split at h
    · cases h
      exact Q.setTasks fun _ _ ht => (lookup_of_erase ht).2
    · cases h
  next t _ =>
    split at h
    next use session ht => exact Q.check I hundisturbed ht h
    · cases h
  next t ok _ =>
    split at h
    · cases h
      exact Q.setSession (fun s => by dsimp only; split <;> rfl) fun _ _ ht => (lookup_of_erase ht).2
    · cases h
  · cases h

theorem run (I : Inv w) (Q : Quiet w) (hundisturbed : undisturbedRun w as) (h : w.run as = some w') :
    Quiet w' := by
  induction as generalizing w with
  | nil =>
    cases h
    exact Q
  | cons a as ih =>
    obtain ⟨w₁, hstep, hrest⟩ := bind_eq_some_iff.mp h
    rw [undisturbedRun, Bool.and_eq_true, hstep, all_some] at hundisturbed
    exact ih (I.step hstep) (Q.step I hundisturbed.1 hstep) hundisturbed.2 hrest

end Quiet

/-! ## Retired leases do not execute -/

/-- What hosts rely on between any two sections: nobody evaluates a retired lease or starts to; every
owner token is handed out once, after its lease was retired and while nobody evaluates it. -/
structure NeverExecuting (w : World) : Prop where
  idle : ∀ t h s, w.tasks.lookup t = some (.evaluating h) → w.sessions.lookup h = some s →
    ∀ code token lapsed, .retired s.leaseId code token lapsed ∉ w.log
  refused : ∀ t use h s w' code token lapsed, w.tasks.lookup t = some (.locked use h) →
    w.sessions.lookup h = some s → .retired s.leaseId code token lapsed ∈ w.log →
      w.step (.check t) = some w' → t ∉ w'.tasks
  handed : w.handedOut ++ w.state.retiredOwnerTokens = w.log.filterMap Event.retiredToken
  once : (w.handedOut ++ w.state.retiredOwnerTokens).Nodup
  services : ∀ k ∈ w.handedOut, ∀ id sid g, .inserted id sid g (some k) ∈ w.log →
    (∃ code lapsed, .retired id code (some k) lapsed ∈ w.log) ∧
      ∀ t h s, w.tasks.lookup t = some (.evaluating h) → w.sessions.lookup h = some s → s.leaseId ≠ id

theorem Inv.refused_check {use : Use} {s : RuntimeSession} {token : Option ℕ} {lapsed : Bool} (I : Inv w)
    (ht : w.tasks.lookup t = some (.locked use h)) (hs : w.sessions.lookup h = some s)
    (hretired : .retired s.leaseId code token lapsed ∈ w.log) (hstep : w.step (.check t) = some w') :
    t ∉ w'.tasks := by
  have hterminal := I.core.sessions.marked h s code token lapsed hs hretired
  have hactive : ∀ s', s.ensureActive w.now ≠ .ok s' := by
    intro s' hok
    unfold RuntimeSession.ensureActive at hok
    split at hok
    · cases hok
    next hnone => exact hterminal (inactiveError_eq_none hnone).1
  simp only [World.step, ht, World.check, hs, bind_eq_bind, bind_some] at hstep
  split at hstep
  next hok => exact (hactive _ hok).elim
  · cases hstep
    exact mem_erase.not.mpr fun h => h.1 rfl

/-- A token is inserted with one lease only. -/
theorem token_lease {log : List Event} {id' sid sid' : String} {g g' k : ℕ} (hlog : LegalLog LegalEvent log)
    (h : .inserted id sid g (some k) ∈ log) (h' : .inserted id' sid' g' (some k) ∈ log) : id = id' := by
  rcases hlog.eq_or_legal h h' with heq | ⟨before, hmem, hlegal⟩ | ⟨before, hmem, hlegal⟩
  · cases heq
    rfl
  · exact (hlegal.2.2 k rfl _ _ _ hmem).elim
  · exact (hlegal.2.2 k rfl _ _ _ hmem).elim

/-- A token is retired with its lease, hence once. -/
theorem retired_tokens_nodup {log : List Event} (hlog : LegalLog LegalEvent log) :
    (log.filterMap Event.retiredToken).Nodup := by
  refine hlog.nodup_filterMap fun before e e' k hbefore he he' hk hk' => ?_
  cases e with
  | inserted => cases hk
  | retired id code token lapsed =>
    cases e' with
    | inserted => cases hk'
    | retired id' code' token' lapsed' =>
      cases hk
      cases hk'
      obtain ⟨⟨sid, g, hinserted⟩, hfresh⟩ := he
      obtain ⟨first, last, rfl, ⟨⟨sid', g', hinserted'⟩, -⟩⟩ := hbefore.of_mem he'
      cases token_lease hbefore hinserted (mem_append_left _ hinserted')
      exact hfresh _ _ _ he'

/-- In every run in which no evaluation starts on a lease that is being replaced, no retired lease
executes. -/
theorem World.neverExecuting {nextOwnerToken : ℕ} {as : List Action}
    (hundisturbed : undisturbedRun (new nextOwnerToken) as)
    (h : (new nextOwnerToken).run as = some w) : NeverExecuting w := by
  have I : Inv w := Inv.new.run h
  have Q : Quiet w := Quiet.new.run Inv.new hundisturbed h
  refine ⟨Q.idle, fun t use h s w' code token lapsed => I.refused_check, I.core.handed, ?_,
    fun k hk id sid g hinserted => ?_⟩
  · rw [I.core.handed]
    exact retired_tokens_nodup I.core.legal
  · have hretired : k ∈ w.log.filterMap Event.retiredToken := by
      rw [← I.core.handed]
      exact mem_append_left _ hk
    obtain ⟨e, he, hk⟩ := mem_filterMap.mp hretired
    cases e with
    | inserted => cases hk
    | retired id' code token lapsed =>
      cases hk
      obtain ⟨first, last, hlog, ⟨⟨sid', g', hinserted'⟩, -⟩⟩ := I.core.legal.of_mem he
      have hmem : .inserted id' sid' g' (some k) ∈ w.log := hlog ▸ mem_append_left _ hinserted'
      cases token_lease I.core.legal hinserted hmem
      refine ⟨⟨code, lapsed, he⟩, fun t h s ht hs heq => ?_⟩
      exact Q.idle t h s ht hs code _ lapsed (heq ▸ he)

namespace Example

/-- A caller looks up a lease and evaluates it, while another one inserts a lease in its place. -/
def lookup (t : ℕ) (id : String) : List Action :=
  [.begin t (.get .eval id ⟨none, none, none⟩) [id], .prune, .prune, .get]

def replacing : InsertRequest := ⟨.systemLuaLib, "agent", none, true, some ⟨2, .bound⟩⟩

def firstLease : List Action :=
  insertion 0 "agent" none false (some ⟨1, .bound⟩) [] 20 ++ lookup 1 "rt_20_1" ++
  [.prepare 2 .systemLuaLib "agent" none true (some .bound),
    .begin 2 (.insert replacing) ["rt_20_1"], .prune, .prune, .select]

/-- The evaluation starts before the commit, and the token is handed out while it runs. -/
def overlapping : List Action :=
  firstLease ++ [.lockSession 1, .check 1, .commit 30, .takeTokens]

theorem replaced_while_executing : ∃ w, (new 0).run overlapping = some w ∧ ¬ NeverExecuting w := by
  obtain ⟨w, hrun, hw⟩ := map_eq_some_iff.mp
    (show ((new 0).run overlapping).map (fun w => (w.tasks.lookup 1,
        (w.sessions.lookup 0).map RuntimeSession.leaseId,
        decide (.retired "rt_20_1" .replaced (some 1) false ∈ w.log))) =
      some (some (.evaluating 0), some "rt_20_1", true) by decide +kernel)
  obtain ⟨htask, hrest⟩ := Prod.mk.inj hw
  obtain ⟨hsession, hretired⟩ := Prod.mk.inj hrest
  obtain ⟨s, hs, hname⟩ := map_eq_some_iff.mp hsession
  refine ⟨w, hrun, fun N => ?_⟩
  exact N.idle 1 0 s htask hs .replaced (some 1) false (hname ▸ of_decide_eq_true hretired)

/-- The evaluation takes the lock after the commit, and is refused. -/
def ordered : List Action :=
  firstLease ++ [.commit 30, .lockSession 1, .check 1, .takeTokens]

theorem replaced_before_executing : ∃ w, (new 0).run ordered = some w ∧ w.handedOut = [1] ∧
    NeverExecuting w := by
  obtain ⟨w, hrun, hw⟩ := map_eq_some_iff.mp
    (show ((new 0).run ordered).map handedOut = some [1] by decide +kernel)
  exact ⟨w, hrun, hw, neverExecuting (by decide +kernel) hrun⟩

end Example

end LuaSkills.RuntimeLease
