import LuaSkills.RuntimeLease.Registry

/-!
# Runs of a manager

One lemma for each section of a call and for each step of an evaluation; every run then keeps the
registry.
-/

namespace LuaSkills.RuntimeLease

open AList List Option World

variable {st : RuntimeSessionManagerState} {entry : RuntimeSessionEntry} {id sid : String}
  {code : TerminalCode} {sessions : AssocMap ℕ RuntimeSession} {log : List Event}
  {tasks : AssocMap ℕ Task} {w w' : World} {sec : Section} {t h : ℕ} {task : Task}
  {nextOwnerToken now now' : ℕ} {request : InsertRequest} {f : RuntimeSession → RuntimeSession}
  {tasks' : AssocMap ℕ Task} {s : RuntimeSession} {replacement : Option String} {use : Use}

/-! ## Tasks and sessions -/

theorem Tokens.erase (T : Tokens tasks nextOwnerToken log) :
    Tokens (tasks.erase t) nextOwnerToken log where
  issued := T.issued
  creating t' request package ht := T.creating t' request package (lookup_of_erase ht).2
  once t₁ t₂ r₁ r₂ p₁ p₂ h₁ h₂ := T.once t₁ t₂ r₁ r₂ p₁ p₂ (lookup_of_erase h₁).2 (lookup_of_erase h₂).2

/-- A task that prepared nothing takes the place of any task. -/
theorem Tokens.setTask (T : Tokens tasks nextOwnerToken log)
    (htask : ∀ request, task = .creating request → tasks.lookup t = some task) :
    Tokens (tasks.insert t task) nextOwnerToken log := by
  have hlookup : ∀ {t' request}, (tasks.insert t task).lookup t' = some (.creating request) →
      tasks.lookup t' = some (.creating request) := by
    intro t' request h
    rw [lookup_insert_eq] at h
    split at h
    next heq =>
      have hcreating := some.inj h
      rw [heq, htask request hcreating, hcreating]
    next => exact h
  exact ⟨T.issued, fun t' request package h => T.creating t' request package (hlookup h),
    fun t₁ t₂ r₁ r₂ p₁ p₂ h₁ h₂ => T.once t₁ t₂ r₁ r₂ p₁ p₂ (hlookup h₁) (hlookup h₂)⟩

theorem Tokens.mono {next : ℕ} (T : Tokens tasks next log) (hle : next ≤ next') :
    Tokens tasks next' log where
  issued id sid g k h := le_trans (T.issued id sid g k h) hle
  creating t request package ht hp :=
    ⟨le_trans (T.creating t request package ht hp).1 hle, (T.creating t request package ht hp).2⟩
  once := T.once

/-- A token above all others goes to a new caller. -/
theorem Tokens.prepare {next : ℕ} (T : Tokens tasks next log)
    (hp : ∀ package, request.package = some package → package.ownerToken = next + 1) :
    Tokens (tasks.insert t (.creating request)) (next + 1) log where
  issued id sid g k h := Nat.le_succ_of_le (T.issued id sid g k h)
  creating t' request' package' ht' hp' := by
    rw [lookup_insert_eq] at ht'
    split at ht'
    · cases ht'
      rw [hp package' hp']
      exact ⟨le_rfl, fun id sid g hmem => absurd (T.issued id sid g _ hmem) (Nat.not_succ_le_self next)⟩
    · obtain ⟨hle, hno⟩ := T.creating t' request' package' ht' hp'
      exact ⟨Nat.le_succ_of_le hle, hno⟩
  once t₁ t₂ r₁ r₂ p₁ p₂ h₁ h₂ hp₁ hp₂ heq := by
    rw [lookup_insert_eq] at h₁ h₂
    split at h₁
    next heq₁ =>
      split at h₂
      next heq₂ => rw [heq₁, heq₂]
      next =>
        cases h₁
        have := (T.creating t₂ r₂ p₂ h₂ hp₂).1
        rw [← heq, hp p₁ hp₁] at this
        exact absurd this (Nat.not_succ_le_self next)
    next =>
      split at h₂
      next =>
        cases h₂
        have := (T.creating t₁ r₁ p₁ h₁ hp₁).1
        rw [heq, hp p₂ hp₂] at this
        exact absurd this (Nat.not_succ_le_self next)
      next => exact T.once t₁ t₂ r₁ r₂ p₁ p₂ h₁ h₂ hp₁ hp₂ heq

theorem Locks.setTask (L : Locks sessions tasks)
    (htask : ∀ h, task.Holds h → ∃ s, sessions.lookup h = some s ∧ s.lockedBy = some t) :
    Locks sessions (tasks.insert t task) := by
  intro t' task' h ht hholds
  rcases lookup_of_insert ht with ⟨rfl, rfl⟩ | ⟨-, ht⟩
  · exact htask h hholds
  · exact L t' task' h ht hholds

/-- The end of a task frees the lock it held. -/
theorem Locks.release (L : Locks sessions tasks)
    (ht : tasks.lookup t = some task) (hholds : task.Holds h) :
    Locks (sessions.adjust h f) (tasks.erase t) := by
  intro t' task' h' ht' hholds'
  obtain ⟨hne, ht'⟩ := lookup_of_erase ht'
  obtain ⟨s', hs', hlocked'⟩ := L t' task' h' ht' hholds'
  refine ⟨s', ?_, hlocked'⟩
  rw [lookup_adjust_ne, hs']
  rintro rfl
  obtain ⟨s, hs, hlocked⟩ := L t task h' ht hholds
  rw [hs] at hs'
  cases hs'
  exact hne (some.inj (hlocked'.symm.trans hlocked))

theorem Sessions.adjust {nextAddress : ℕ} {closing : Option String}
    (S : Sessions st sessions nextAddress closing log) (hname : ∀ s, (f s).leaseId = s.leaseId)
    (hmark : ∀ s, (f s).terminalState = s.terminalState ∧ (f s).closed = s.closed) :
    Sessions st (sessions.adjust h f) nextAddress closing log := by
  refine ⟨fun id entry hentry => ?_, fun id entry s hentry hs hclosing => ?_, fun h' s hs => ?_,
    fun h₁ h₂ s₁ s₂ hs₁ hs₂ heq => ?_, fun h' s code token lapsed hs hmem => ?_,
    fun id' entry' s hclosing' hentry' hs => ?_⟩
  · obtain ⟨s, hs, hs'⟩ := S.entry id entry hentry
    rw [lookup_adjust_eq]
    split
    · exact ⟨f s, by rw [hs, map_some], (hname s).trans hs'⟩
    · exact ⟨s, hs, hs'⟩
  · obtain ⟨s₀, hs₀, -, ⟨-, rfl⟩ | ⟨-, rfl⟩⟩ := lookup_adjust_named hs hname
    · rw [(hmark s₀).1, (hmark s₀).2]
      exact S.live id entry s₀ hentry hs₀ hclosing
    · exact S.live id entry s hentry hs₀ hclosing
  · obtain ⟨s₀, hs₀, heq, -⟩ := lookup_adjust_named hs hname
    rw [heq]
    exact S.named h' s₀ hs₀
  · obtain ⟨s₁', hs₁', heq₁, -⟩ := lookup_adjust_named hs₁ hname
    obtain ⟨s₂', hs₂', heq₂, -⟩ := lookup_adjust_named hs₂ hname
    exact S.unique h₁ h₂ s₁' s₂' hs₁' hs₂' (heq₁.symm.trans (heq.trans heq₂))
  · obtain ⟨s₀, hs₀, heq, ⟨-, rfl⟩ | ⟨-, rfl⟩⟩ := lookup_adjust_named hs hname
    · rw [(hmark s₀).1]
      exact S.marked h' s₀ code token lapsed hs₀ (heq ▸ hmem)
    · exact S.marked h' s code token lapsed hs₀ hmem
  · obtain ⟨s₀, hs₀, -, ⟨-, rfl⟩ | ⟨-, rfl⟩⟩ := lookup_adjust_named hs hname
    · rw [(hmark s₀).1]
      exact S.closing id' entry' s₀ hclosing' hentry' hs₀
    · exact S.closing id' entry' s hclosing' hentry' hs₀

theorem Sessions.mark {nextAddress : ℕ}
    (S : Sessions st sessions nextAddress none log) (hname : ∀ s, (f s).leaseId = s.leaseId)
    (hmark : ∀ s, (f s).terminalState ≠ none) (hentry : st.leases.lookup id = some entry) :
    Sessions st (sessions.adjust entry.session f) nextAddress (some id) log := by
  refine ⟨fun id' entry' hentry' => ?_, fun id' entry' s hentry' hs hclosing => ?_, fun h' s hs => ?_,
    fun h₁ h₂ s₁ s₂ hs₁ hs₂ heq => ?_, fun h' s code token lapsed hs hmem => ?_,
    fun id' entry' s hclosing' hentry' hs => ?_⟩
  · obtain ⟨s, hs, hs'⟩ := S.entry id' entry' hentry'
    rw [lookup_adjust_eq]
    split
    · exact ⟨f s, by rw [hs, map_some], (hname s).trans hs'⟩
    · exact ⟨s, hs, hs'⟩
  · obtain ⟨s₀, hs₀, hname₀⟩ := S.entry id entry hentry
    obtain ⟨s₁, hs₁, hname₁⟩ := S.entry id' entry' hentry'
    have hne : entry'.session ≠ entry.session := by
      intro heq
      rw [heq, hs₀] at hs₁
      cases hs₁
      exact hclosing (congrArg some (hname₀.symm.trans hname₁))
    rw [lookup_adjust_ne hne] at hs
    exact S.live id' entry' s hentry' hs nofun
  · obtain ⟨s₀, hs₀, heq, -⟩ := lookup_adjust_named hs hname
    rw [heq]
    exact S.named h' s₀ hs₀
  · obtain ⟨s₁', hs₁', heq₁, -⟩ := lookup_adjust_named hs₁ hname
    obtain ⟨s₂', hs₂', heq₂, -⟩ := lookup_adjust_named hs₂ hname
    exact S.unique h₁ h₂ s₁' s₂' hs₁' hs₂' (heq₁.symm.trans (heq.trans heq₂))
  · obtain ⟨s₀, hs₀, heq, ⟨-, rfl⟩ | ⟨-, rfl⟩⟩ := lookup_adjust_named hs hname
    · exact hmark s₀
    · exact S.marked h' s code token lapsed hs₀ hmem
  · cases hclosing'
    cases hentry.symm.trans hentry'
    obtain ⟨s₀, -, -, ⟨-, rfl⟩ | ⟨hne, -⟩⟩ := lookup_adjust_named hs hname
    · exact hmark s₀
    · exact (hne rfl).elim

/-! ## The call under the lock -/

theorem Holding.unlocked : Holding none st sessions tasks now where
  task _ h := nomatch h
  expired _ _ _ h := nomatch h
  chosen _ _ _ h := nomatch h
  closing _ _ h := nomatch h

/-- A call whose next section relies on nothing but its caller. -/
theorem Holding.ofTask (htask : tasks.lookup sec.task = some (callTask sec.call))
    (hphase : (∃ todo, sec.phase = .pruning todo []) ∨ sec.phase = .body) :
    Holding (some sec) st sessions tasks now := by
  refine ⟨fun sec' h => ?_, fun sec' todo expired h hp id hid => ?_, fun sec' request r h _ hp => ?_,
    fun sec' id h hp => ?_⟩
  · cases h
    exact htask
  all_goals
    cases h
    rcases hphase with ⟨todo', hphase⟩ | hphase <;> rw [hphase] at hp <;> cases hp
  cases hid

theorem Holding.pruning {todo expired : List String}
    (htask : tasks.lookup sec.task = some (callTask sec.call)) (hphase : sec.phase = .pruning todo expired)
    (hexpired : ∀ id ∈ expired, ∀ entry s, st.leases.lookup id = some entry →
      sessions.lookup entry.session = some s →
        s.isExpired now ∧ ∀ t, tasks.lookup t ≠ some (.evaluating entry.session)) :
    Holding (some sec) st sessions tasks now := by
  refine ⟨fun sec' h => ?_, fun sec' todo' expired' h hp => ?_, fun sec' request r h _ hp => ?_,
    fun sec' id h hp => ?_⟩
  all_goals cases h
  · exact htask
  · rw [hphase] at hp
    cases hp
    exact hexpired
  all_goals
    rw [hphase] at hp
    cases hp

/-- Steps of other callers keep what the call under the lock relies on: they leave the expired sessions
expired, and none of them starts to evaluate. -/
theorem Holding.others {sessions' : AssocMap ℕ RuntimeSession}
    (H : Holding w.lock st sessions tasks now)
    (htask : ∀ sec, w.lock = some sec → tasks.lookup sec.task = some (callTask sec.call) →
      tasks'.lookup sec.task = some (callTask sec.call))
    (hexpired : ∀ h s', sessions'.lookup h = some s' → ∃ s, sessions.lookup h = some s ∧
      (s.isExpired now → (∀ t, tasks.lookup t ≠ some (.evaluating h)) →
        s'.isExpired now' ∧ ∀ t, tasks'.lookup t ≠ some (.evaluating h))) :
    Holding w.lock st sessions' tasks' now' where
  task sec h := htask sec h (H.task sec h)
  expired sec todo expired h hp id hid entry s' hentry hs' := by
    obtain ⟨s, hs, himp⟩ := hexpired entry.session s' hs'
    obtain ⟨hexp, hidle⟩ := H.expired sec todo expired h hp id hid entry s hentry hs
    exact himp hexp hidle
  chosen := H.chosen
  closing := H.closing

theorem Core.finishCall (C : Core w none) : Core (w.unlock.endTask t) none :=
  ⟨C.maps, C.history, C.sessions, C.locks.erase, C.tokens.erase, C.handed, C.legal⟩

theorem Inv.unlocked (hlock : w.lock = none) (C : Core w none) : Inv w := by
  refine ⟨?_, ?_, fun sec request h => ?_⟩
  · rw [hlock]
    exact C
  · rw [hlock]
    exact .unlocked
  · rw [hlock] at h
    cases h

namespace Inv

theorem new : Inv (new nextOwnerToken) := by
  refine .unlocked rfl ⟨⟨?_, ?_, Nat.zero_le _⟩, ⟨?_, ?_, ?_⟩, ⟨?_, ?_, ?_, ?_, ?_, ?_⟩, ?_, ⟨?_, ?_, ?_⟩, rfl, .nil⟩
  case refine_12 => exact fun t task h ht => nomatch ht
  all_goals simp [World.new, RuntimeSessionManagerState.new]

/-- The core of a state whose lock marks nothing. -/
theorem coreOf (I : Inv w) (h : closingId w.lock = none) : Core w none := h ▸ I.core

theorem coreOf_phase (I : Inv w) (hlock : w.lock = some sec) (h : sec.phase.closingId = none) :
    Core w none := by
  refine I.coreOf ?_
  rw [hlock]
  exact h

theorem begin (I : Inv w) (hlock : w.lock = none) (ht : w.mayCall t call = true) :
    Inv ((w.begin t call order).setTask t (callTask call)) := by
  have C := I.coreOf (by rw [hlock]; rfl)
  refine ⟨⟨C.maps, C.history, C.sessions, C.locks.setTask ?_, C.tokens.setTask ?_, C.handed, C.legal⟩,
    .ofTask (lookup_insert _) (.inl ⟨order, rfl⟩), ?_⟩
  · intro h hholds
    cases call <;> rcases hholds with ⟨use, hholds⟩ | hholds <;> cases hholds
  · intro request hcreating
    cases call with
    | insert request => exact of_decide_eq_true ht
    | _ => cases hcreating
  · rintro sec request h - id entry hindex hentry
    cases h
    exact .inl ⟨hindex, hentry⟩

/-! ### Pruning -/

theorem evaluating_locked (I : Inv w) (ht : w.tasks.lookup t = some (.evaluating h)) :
    ∃ s, w.sessions.lookup h = some s ∧ s.lockedBy = some t :=
  I.core.locks t _ h ht (.inr rfl)

theorem shouldRemove (I : Inv w) (h : w.shouldRemove id = true)
    (hentry : w.state.leases.lookup id = some entry) (hs : w.sessions.lookup entry.session = some s) :
    s.isExpired w.now ∧ ∀ t, w.tasks.lookup t ≠ some (.evaluating entry.session) := by
  simp only [World.shouldRemove, hentry, hs, any_some, Bool.and_eq_true, isNone_iff_eq_none] at h
  refine ⟨h.2.2, fun t ht => ?_⟩
  obtain ⟨s', hs', hlocked⟩ := I.evaluating_locked ht
  rw [hs] at hs'
  cases hs'
  rw [h.1] at hlocked
  cases hlocked

theorem lookup_retired (I : Inv w) (hne : id' ≠ id) (h : w.retire id code = some w')
    (hentry' : w.state.leases.lookup id' = some entry') :
    w'.state.leases.lookup id' = some entry' ∧ w'.state.sidIndex.lookup entry'.sid = some id' ∧
      w'.sessions.lookup entry'.session = w.sessions.lookup entry'.session := by
  obtain ⟨entry, hentry, rfl⟩ := retire_eq_some.mp h
  have hindex := I.core.maps.lookup_sidIndex hentry'
  refine ⟨?_, ?_, ?_⟩
  · show (w.state.leases.erase id).lookup id' = _
    rw [lookup_erase_ne hne, hentry']
  · show (w.state.detach id entry code w.now).sidIndex.lookup _ = _
    rw [I.core.maps.sidIndex_detach hentry, lookup_erase_ne, hindex]
    intro hsid
    rw [hsid, I.core.maps.lookup_sidIndex hentry] at hindex
    exact hne (some.inj hindex).symm
  · show (w.sessions.adjust entry.session _).lookup _ = _
    refine lookup_adjust_ne fun heq => ?_
    obtain ⟨s, hs, hname⟩ := I.core.sessions.entry id entry hentry
    obtain ⟨s', hs', hname'⟩ := I.core.sessions.entry id' entry' hentry'
    rw [heq, hs] at hs'
    cases hs'
    exact hne (hname'.symm.trans hname)

/-- Retiring an expired lease breaks no promise to an insertion under way. -/
theorem kept_retire (I : Inv w) (K : Kept before w.state w.log sid) (h : w.retire id code = some w')
    (hlapsed : ∀ entry, w.state.leases.lookup id = some entry → w.lapsed entry = true) :
    Kept before w'.state w'.log sid := by
  intro id' entry' hindex hentry'
  have hlog : ∃ e, w'.log = w.log ++ [e] := by
    obtain ⟨entry, -, rfl⟩ := retire_eq_some.mp h
    exact ⟨_, rfl⟩
  rcases K id' entry' hindex hentry' with ⟨hindex₁, hentry₁⟩ | ⟨code', token, hmem⟩
  · rcases eq_or_ne id' id with rfl | hne
    · refine .inr ?_
      obtain ⟨entry, hentry, rfl⟩ := retire_eq_some.mp h
      refine ⟨code, entry.ownerToken, mem_append_right _ (mem_singleton.mpr ?_)⟩
      rw [hlapsed entry hentry]
    · obtain ⟨hentry₂, hindex₂, -⟩ := I.lookup_retired hne h hentry₁
      obtain ⟨entry₁, hentry₁', hsid⟩ := (I.core.maps.index sid id').mp hindex₁
      rw [hentry₁] at hentry₁'
      cases hentry₁'
      exact .inl ⟨hsid ▸ hindex₂, hentry₂⟩
  · obtain ⟨e, hlog⟩ := hlog
    exact .inr ⟨code', token, hlog ▸ mem_append_left _ hmem⟩

theorem retire_frame (h : w.retire id code = some w') :
    w'.lock = w.lock ∧ w'.tasks = w.tasks ∧ w'.now = w.now ∧
      ∀ id' entry', w'.state.leases.lookup id' = some entry' → id' ≠ id ∧
        w.state.leases.lookup id' = some entry' := by
  obtain ⟨entry, hentry, rfl⟩ := retire_eq_some.mp h
  refine ⟨rfl, rfl, rfl, fun id' entry' h' => ?_⟩
  have h' : (w.state.leases.erase id).lookup id' = some entry' := h'
  rw [lookup_erase_eq] at h'
  split at h'
  · cases h'
  next hne => exact ⟨hne, h'⟩

theorem prune (I : Inv w) (hlock : w.lock = some sec) (h : w.prune sec = some w') : Inv w' := by
  have htask := I.holding.task sec hlock
  unfold World.prune at h
  split at h
  next id todo expired hphase =>
    cases h
    have C := I.coreOf_phase hlock (by rw [hphase]; rfl)
    refine ⟨C.setLock, .pruning htask rfl fun id' hid' entry s hentry hs => ?_, fun sec' request h hcall => ?_⟩
    · -- The leases found expired before, or the one looked at now.
      split at hid'
      next hremove =>
        rcases mem_append.mp hid' with hid' | hid'
        · exact I.holding.expired sec _ _ hlock hphase id' hid' entry s hentry hs
        · cases mem_singleton.mp hid'
          exact I.shouldRemove hremove hentry hs
      next => exact I.holding.expired sec _ _ hlock hphase id' hid' entry s hentry hs
    · cases h
      exact I.kept sec request hlock hcall
  next id expired hphase =>
    cases h
    have C := I.coreOf_phase hlock (by rw [hphase]; rfl)
    have hexpired := fun id' hid' => I.holding.expired sec [] (id :: expired) hlock hphase id' hid'
    cases hretire : w.retire id .expired with
    | none =>
      rw [getD_none]
      refine ⟨C.setLock, .pruning htask rfl fun id' hid' => hexpired id' (mem_cons_of_mem _ hid'),
        fun sec' request h hcall => ?_⟩
      cases h
      exact I.kept sec request hlock hcall
    | some w₁ =>
      rw [getD_some]
      obtain ⟨hlock₁, htasks₁, hnow₁, hleases₁⟩ := retire_frame hretire
      refine ⟨(C.retire hretire nofun).setLock, .pruning (htasks₁ ▸ htask) rfl
        fun id' hid' entry s hentry hs => ?_, fun sec' request h hcall => ?_⟩
      · obtain ⟨hne, hentry⟩ := hleases₁ id' entry hentry
        have hs : w₁.sessions.lookup entry.session = some s := hs
        rw [(I.lookup_retired hne hretire hentry).2.2] at hs
        show s.isExpired w₁.now ∧ ∀ t, w₁.tasks.lookup t ≠ _
        rw [hnow₁, htasks₁]
        exact hexpired id' (mem_cons_of_mem _ hid') entry s hentry hs
      · cases h
        show Kept sec.before w₁.state w₁.log request.sid
        refine I.kept_retire (I.kept sec request hlock hcall) hretire fun entry hentry => ?_
        obtain ⟨s, hs, -⟩ := I.core.sessions.entry id entry hentry
        have hlapsed := (hexpired id mem_cons_self entry s hentry hs).1
        rw [lapsed, hs]
        exact hlapsed
  next hphase =>
    cases h
    have C := I.coreOf_phase hlock (by rw [hphase]; rfl)
    refine ⟨⟨⟨C.maps.keyed, C.maps.index, C.maps.limit⟩, ⟨C.history.issued, C.history.active, fun id hid => ?_⟩,
      ⟨C.sessions.entry, C.sessions.live, C.sessions.named, C.sessions.unique, C.sessions.marked,
        C.sessions.closing⟩, C.locks,
      C.tokens, C.handed, C.legal⟩, .ofTask htask (.inr rfl), fun sec' request h hcall => ?_⟩
    · exact C.history.buried id (mem_of_mem_retain hid)
    · cases h
      exact I.kept sec request hlock hcall
  · cases h

/-! ### Insertion -/

/-- The session of an active lease that no call has marked. -/
theorem inactive_expired (I : Inv w) (hclosing : closingId w.lock = none)
    (hentry : w.state.leases.lookup id = some entry) (hs : w.sessions.lookup entry.session = some s)
    (h : s.inactiveError w.now = some (code, error)) : s.isExpired w.now = true := by
  obtain ⟨hterminal, hclosed⟩ := (I.coreOf hclosing).sessions.live id entry s hentry hs nofun
  rw [RuntimeSession.inactiveError, hterminal, hclosed] at h
  dsimp only at h
  rw [if_neg Bool.false_ne_true] at h
  split at h
  next hexpired => exact hexpired
  · cases h

theorem select (I : Inv w)
    (hlock : w.lock = some sec) (hcall : sec.call = .insert request) (hphase : sec.phase = .body)
    (h : w.select request = .ok (w', replacement)) : Inv (w'.setPhase sec (.chosen replacement)) := by
  have C := I.coreOf_phase hlock (by rw [hphase]; rfl)
  have htask := I.holding.task sec hlock
  -- A selection that changes nothing but the phase.
  have hkeep : w.state.sidIndex.lookup request.sid = replacement →
      Inv (w.setPhase sec (.chosen replacement)) := by
    intro hchosen
    refine ⟨C.setLock, ⟨fun sec' h => ?_, fun sec' todo expired h hp => ?_,
      fun sec' request' r h hcall' hp => ?_, fun sec' id h hp => ?_⟩, fun sec' request' h hcall' => ?_⟩
    all_goals cases h
    · exact htask
    · cases hp
    · cases hp
      rw [hcall] at hcall'
      cases hcall'
      exact hchosen
    · cases hp
    · exact I.kept sec request' hlock hcall'
  unfold World.select at h
  split at h
  next hnone =>
    cases h
    exact hkeep hnone
  next existing hindex =>
    obtain ⟨entry, hentry, hsid⟩ := (C.maps.index request.sid existing).mp hindex
    obtain ⟨s, hs, -⟩ := C.sessions.entry existing entry hentry
    rw [hentry, bind_some, hs] at h
    dsimp only at h
    split at h
    · split at h <;> cases h
    · split at h
      next code error hinactive =>
        cases h
        obtain ⟨w₁, hretire⟩ : ∃ w₁, w.retire existing code = some w₁ :=
          ⟨_, retire_eq_some.mpr ⟨entry, hentry, rfl⟩⟩
        rw [hretire, getD_some]
        obtain ⟨-, htasks₁, -, -⟩ := retire_frame hretire
        have hexpired := I.inactive_expired (by rw [hlock]; exact congrArg Phase.closingId hphase) hentry hs
          hinactive
        refine ⟨(C.retire hretire nofun).setLock, ⟨fun sec' h => ?_, fun sec' todo expired h hp => ?_,
          fun sec' request' r h hcall' hp => ?_, fun sec' id h hp => ?_⟩, fun sec' request' h hcall' => ?_⟩
        all_goals cases h
        · exact (htasks₁ ▸ htask :)
        · cases hp
        · cases hp
          rw [hcall] at hcall'
          cases hcall'
          show w₁.state.sidIndex.lookup request.sid = none
          obtain ⟨entry', hentry', rfl⟩ := retire_eq_some.mp hretire
          cases hentry.symm.trans hentry'
          show (w.state.detach existing entry code w.now).sidIndex.lookup _ = none
          rw [C.maps.sidIndex_detach hentry, hsid, lookup_erase_eq, if_pos rfl]
        · cases hp
        · show Kept sec.before w₁.state w₁.log request'.sid
          refine I.kept_retire (I.kept sec request' hlock hcall') hretire fun entry' hentry' => ?_
          cases hentry.symm.trans hentry'
          rw [lapsed, hs]
          exact hexpired
      next =>
        split at h
        · cases h
          exact hkeep hindex
        · cases h

theorem commit (I : Inv w) (hlock : w.lock = some sec) (hcall : sec.call = .insert request)
    (hphase : sec.phase = .chosen replacement) (h : w.commit request replacement millis = some r) :
    Inv ((r.toOption.getD w).unlock.endTask sec.task) := by
  have C := I.coreOf_phase hlock (by rw [hphase]; rfl)
  have htask := I.holding.task sec hlock
  rw [hcall] at htask
  refine .unlocked rfl ?_
  cases r with
  | error e => exact C.finishCall
  | ok w₁ => exact (C.commit htask (I.holding.chosen sec request replacement hlock hcall hphase) h).setLock

theorem commit_isSome (I : Inv w) (hlock : w.lock = some sec) (hcall : sec.call = .insert request)
    (hphase : sec.phase = .chosen replacement) : (w.commit request replacement millis).isSome := by
  have hchosen := I.holding.chosen sec request replacement hlock hcall hphase
  unfold World.commit
  split
  · rfl
  next sequence generation _ =>
    cases replacement with
    | none => rfl
    | some existing =>
      obtain ⟨entry, hentry, -⟩ := (I.core.maps.index request.sid existing).mp hchosen
      have hretire : ((w.advance request.sid sequence generation).retire existing .replaced).isSome :=
        retire_isSome (mem_of_lookup hentry)
      obtain ⟨w₁, hw₁⟩ := isSome_iff_exists.mp hretire
      simp only [retireReplaced, hw₁, bind_eq_bind, bind_some]
      rfl

/-! ### Lookup and close -/

/-- A call that ends without having changed the maps. -/
theorem endCall (I : Inv w) (hlock : w.lock = some sec) (hphase : sec.phase.closingId = none) :
    Inv (w.unlock.endTask t) :=
  .unlocked rfl (I.coreOf_phase hlock hphase).finishCall

theorem getHandle (I : Inv w) (hlock : w.lock = some sec)
    (hphase : sec.phase.closingId = none) : Inv (w.unlock.setTask t (.handle use h)) := by
  have C := I.coreOf_phase hlock hphase
  refine .unlocked rfl ⟨C.maps, C.history, C.sessions, C.locks.setTask ?_, C.tokens.setTask nofun, C.handed,
    C.legal⟩
  rintro h (⟨use, hholds⟩ | hholds) <;> cases hholds

theorem closeMark {expected : Expected} (I : Inv w) (hlock : w.lock = some sec)
    (hcall : sec.call = .close id expected) (hphase : sec.phase = .body)
    (h : w.closeMark id expected = .ok w') : Inv (w'.setPhase sec (.closing id)) := by
  have C := I.coreOf_phase hlock (by rw [hphase]; rfl)
  have htask := I.holding.task sec hlock
  unfold World.closeMark at h
  split at h
  next entry hentry =>
    simp only [Except.bind_eq_ok] at h
    obtain ⟨s, -, _, -, heq⟩ := h
    cases heq
    have hcore : Core (w.setSession entry.session fun s =>
        { s with terminalState := some .closed, closed := true }) (some id) :=
      ⟨C.maps, C.history, C.sessions.mark (fun _ => rfl) (fun _ => nofun) hentry, C.locks.adjust fun _ => rfl,
        C.tokens, C.handed, C.legal⟩
    refine ⟨hcore.setLock, ⟨fun sec' h => ?_, fun sec' todo expired h hp => ?_,
      fun sec' request' r h hcall' hp => ?_, fun sec' id h hp => ?_⟩, fun sec' request' h hcall' => ?_⟩
    all_goals cases h
    · exact htask
    · cases hp
    · cases hp
    · cases hp
      refine ⟨mem_of_lookup hentry, fun request hinsert => ?_⟩
      have hinsert : sec.call = .insert request := hinsert
      rw [hcall] at hinsert
      cases hinsert
    · have hcall' : sec.call = .insert request' := hcall'
      rw [hcall] at hcall'
      cases hcall'
  · cases h

theorem closeRetire (I : Inv w) (hlock : w.lock = some sec) (hphase : sec.phase = .closing id)
    (h : w.retire id .closed = some w') : Inv (w'.unlock.endTask t) := by
  refine .unlocked rfl (Core.finishCall (I.core.retire h fun id' h => ?_))
  rw [hlock] at h
  have h : sec.phase.closingId = some id' := h
  rw [hphase] at h
  exact (some.inj h).symm

theorem takeTokens (I : Inv w) (hlock : w.lock = none) :
    Inv { w with
      state := { w.state with retiredOwnerTokens := [] }
      handedOut := w.handedOut ++ w.state.retiredOwnerTokens } := by
  have C := I.coreOf (by rw [hlock]; rfl)
  exact .unlocked hlock ⟨⟨C.maps.keyed, C.maps.index, C.maps.limit⟩,
    ⟨C.history.issued, C.history.active, C.history.buried⟩,
    ⟨C.sessions.entry, C.sessions.live, C.sessions.named, C.sessions.unique, C.sessions.marked,
        C.sessions.closing⟩, C.locks,
    C.tokens, (append_nil _).trans C.handed, C.legal⟩

/-! ### Other callers -/

theorem isExpired_mono (hle : now ≤ now') (h : s.isExpired now = true) :
    s.isExpired now' = true := by
  obtain ⟨expiresAt, hat, hexpired⟩ := (any_eq_true _ _).mp h
  refine (any_eq_true _ _).mpr ⟨expiresAt, hat, ?_⟩
  exact decide_eq_true (le_trans (of_decide_eq_true hexpired) hle)

/-- A session that may run has no terminal mark and is not expired. -/
theorem inactiveError_eq_none (h : s.inactiveError now = none) :
    s.terminalState = none ∧ s.isExpired now = false := by
  unfold RuntimeSession.inactiveError at h
  split at h
  · cases h
  next hterminal =>
    split at h
    · cases h
    · split at h
      · cases h
      next hexpired => exact ⟨hterminal, Bool.not_eq_true _ |>.mp hexpired⟩

theorem touch_frame (s : RuntimeSession) (now : ℕ) :
    (s.touch now).leaseId = s.leaseId ∧ (s.touch now).terminalState = s.terminalState ∧
      (s.touch now).closed = s.closed ∧ (s.touch now).lockedBy = s.lockedBy := by
  unfold RuntimeSession.touch
  split <;> exact ⟨rfl, rfl, rfl, rfl⟩

/-- A step of a caller changes no map of the manager. -/
theorem callers (I : Inv w) (S : Sessions w.state sessions' w.nextAddress (closingId w.lock) w.log)
    (L : Locks sessions' tasks') (T : Tokens tasks' next' w.log)
    (H : Holding w.lock w.state sessions' tasks' now') :
    Inv { w with now := now', sessions := sessions', nextOwnerToken := next', tasks := tasks' } :=
  ⟨⟨I.core.maps, I.core.history, S, L, T, I.core.handed, I.core.legal⟩, H, I.kept⟩

theorem tick {n : ℕ} (I : Inv w) : Inv { w with now := w.now + n } :=
  I.callers I.core.sessions I.core.locks I.core.tokens
    (I.holding.others (fun _ _ h => h) fun _ s hs =>
      ⟨s, hs, fun hexpired hidle => ⟨isExpired_mono (Nat.le_add_right _ _) hexpired, hidle⟩⟩)

/-- A new caller changes nothing for the call under the lock. -/
theorem holding_join (I : Inv w) (ht : t ∉ w.tasks) (htask : ∀ h, task ≠ .evaluating h) :
    Holding w.lock w.state w.sessions (w.tasks.insert t task) w.now := by
  refine I.holding.others (fun sec hlock htask => ?_) fun h s hs => ⟨s, hs, fun hexpired hidle =>
    ⟨hexpired, fun t' ht' => ?_⟩⟩
  · rw [lookup_insert_ne, htask]
    rintro rfl
    exact ht (mem_of_lookup htask)
  · rw [lookup_insert_eq] at ht'
    split at ht'
    · exact htask h (some.inj ht')
    · exact hidle t' ht'

theorem prepare {profile : RuntimeLeaseProfile} {ttlSec : Option ℕ} {replace : Bool}
    {binding : Option BindingAnswer} (I : Inv w) (ht : t ∉ w.tasks)
    (h : w.prepare t profile sid ttlSec replace binding = some w') : Inv w' := by
  have hholds : ∀ request h, ¬ (Task.creating request).Holds h := by
    rintro request _ (⟨use, hholds⟩ | hholds) <;> cases hholds
  unfold World.prepare at h
  split at h
  · cases h
    refine I.callers I.core.sessions (I.core.locks.setTask fun _ hh => (hholds _ _ hh).elim) ?_
      (I.holding_join ht (by rintro _ ⟨⟩))
    refine ⟨I.core.tokens.issued, fun t' request package ht' hp => ?_,
      fun t₁ t₂ r₁ r₂ p₁ p₂ h₁ h₂ hp₁ hp₂ => ?_⟩
    · rw [lookup_insert_eq] at ht'
      split at ht'
      · cases ht'
        cases hp
      · exact I.core.tokens.creating t' request package ht' hp
    · rw [lookup_insert_eq] at h₁ h₂
      split at h₁
      · cases h₁
        cases hp₁
      · split at h₂
        · cases h₂
          cases hp₂
        · exact I.core.tokens.once t₁ t₂ r₁ r₂ p₁ p₂ h₁ h₂ hp₁ hp₂
  next b =>
    simp only [Option.bind_eq_bind, Option.bind_eq_some_iff, checkedAdd_eq_some, Option.pure_def,
      some.injEq] at h
    obtain ⟨token, ⟨_, rfl⟩, rfl⟩ := h
    refine I.callers I.core.sessions (I.core.locks.setTask fun _ hh => (hholds _ _ hh).elim)
      (I.core.tokens.prepare fun package hp => ?_) (I.holding_join ht (by rintro _ ⟨⟩))
    cases hp
    rfl

/-- A caller outside the manager's lock. -/
def Outside (task : Task) : Prop := ∀ call, task ≠ callTask call

theorem task_ne (I : Inv w) (ht : w.tasks.lookup t = some task) (hout : Outside task)
    (hlock : w.lock = some sec) : sec.task ≠ t := by
  rintro rfl
  rw [I.holding.task sec hlock] at ht
  exact hout sec.call (some.inj ht).symm

theorem outside_handle : Outside (.handle use h) := fun call => by cases call <;> nofun

theorem outside_locked : Outside (.locked use h) := fun call => by cases call <;> nofun

theorem outside_evaluating : Outside (.evaluating h) := fun call => by cases call <;> nofun

/-- What an outside caller may do to the call under the lock: it may change one session that is not
expired, or whose evaluation it ends, and it may start to evaluate one that is not expired. -/
theorem holding_outside (I : Inv w)
    (ht : w.tasks.lookup t = some task) (hout : Outside task)
    (htasks : ∀ t', t' ≠ t → tasks'.lookup t' = w.tasks.lookup t')
    (hsession : ∀ s, w.sessions.lookup h = some s → s.isExpired w.now →
      (∀ t, w.tasks.lookup t ≠ some (.evaluating h)) →
        (f s).isExpired w.now ∧ tasks'.lookup t ≠ some (.evaluating h))
    (hother : ∀ h', h' ≠ h → tasks'.lookup t ≠ some (.evaluating h')) :
    Holding w.lock w.state (w.sessions.adjust h f) tasks' w.now := by
  refine I.holding.others (fun sec hlock htask => ?_) fun h' s' hs' => ?_
  · rw [htasks _ (I.task_ne ht hout hlock), htask]
  · rw [lookup_adjust_eq] at hs'
    split at hs'
    next heq =>
      cases heq
      obtain ⟨s, hs, rfl⟩ := map_eq_some_iff.mp hs'
      refine ⟨s, hs, fun hexpired hidle => ⟨(hsession s hs hexpired hidle).1, fun t' => ?_⟩⟩
      rcases eq_or_ne t' t with rfl | hne
      · exact (hsession s hs hexpired hidle).2
      · rw [htasks t' hne]
        exact hidle t'
    next hne' =>
      refine ⟨s', hs', fun hexpired hidle => ⟨hexpired, fun t' => ?_⟩⟩
      rcases eq_or_ne t' t with rfl | hne
      · exact hother h' hne'
      · rw [htasks t' hne]
        exact hidle t'

theorem lockSession (I : Inv w) (ht : w.tasks.lookup t = some (.handle use h))
    (hfree : (w.sessions.lookup h).any (·.lockedBy.isNone) = true) :
    Inv ((w.setSession h fun s => { s with lockedBy := some t }).setTask t (.locked use h)) := by
  obtain ⟨s, hs, hnone⟩ := (any_eq_true _ _).mp hfree
  have L : Locks (w.sessions.adjust h fun s => { s with lockedBy := some t })
      (w.tasks.insert t (.locked use h)) := by
    intro t' task' h' ht' hholds
    rw [lookup_insert_eq] at ht'
    split at ht'
    next heq =>
      cases ht'
      cases heq
      obtain rfl : h = h' := by
        rcases hholds with ⟨use', hholds⟩ | hholds <;> cases hholds
        rfl
      exact ⟨_, by rw [lookup_adjust_self, hs, map_some], rfl⟩
    next =>
      obtain ⟨s', hs', hlocked⟩ := I.core.locks t' task' h' ht' hholds
      refine ⟨s', ?_, hlocked⟩
      rw [lookup_adjust_ne, hs']
      rintro rfl
      rw [hs] at hs'
      cases hs'
      rw [isNone_iff_eq_none.mp hnone] at hlocked
      cases hlocked
  refine I.callers (I.core.sessions.adjust (fun _ => rfl) fun _ => ⟨rfl, rfl⟩) L
    (I.core.tokens.setTask nofun) (I.holding_outside ht outside_handle
      (fun t' hne => lookup_insert_ne hne) (fun s _ hexpired _ => ⟨hexpired, ?_⟩) fun h' _ => ?_)
  all_goals
    rw [lookup_insert]
    nofun

/-- The end of a caller that holds no lock. -/
theorem leave (I : Inv w) (ht : w.tasks.lookup t = some (.handle use h)) : Inv (w.endTask t) := by
  refine I.callers I.core.sessions I.core.locks.erase I.core.tokens.erase
    (I.holding.others (fun sec hlock htask => ?_) fun h' s hs => ⟨s, hs, fun hexpired hidle =>
      ⟨hexpired, fun t' ht' => hidle t' (lookup_of_erase ht').2⟩⟩)
  rw [lookup_erase_ne (I.task_ne ht outside_handle hlock), htask]

theorem release (I : Inv w) (ht : w.tasks.lookup t = some task)
    (hholds : task.Holds h) (hname : ∀ s, (f s).leaseId = s.leaseId)
    (hmark : ∀ s, (f s).terminalState = s.terminalState ∧ (f s).closed = s.closed)
    (hexpired : ∀ s, s.isExpired w.now → task = .evaluating h ∨ (f s).isExpired w.now) :
    Inv ((w.setSession h f).endTask t) := by
  have hout : Outside task := by
    rcases hholds with ⟨use, rfl⟩ | rfl
    · exact outside_locked
    · exact outside_evaluating
  refine I.callers (I.core.sessions.adjust hname hmark) (I.core.locks.release ht hholds) I.core.tokens.erase
    (I.holding_outside ht hout (fun t' hne => lookup_erase_ne hne) (fun s _ hexp hidle => ⟨?_, ?_⟩)
      fun h' _ => ?_)
  · rcases hexpired s hexp with heval | hexp
    · exact absurd (heval ▸ ht) (hidle t)
    · exact hexp
  all_goals
    rw [lookup_erase]
    nofun

theorem check (I : Inv w) (ht : w.tasks.lookup t = some (.locked use h))
    (hw' : w.check t use h = some w') : Inv w' := by
  simp only [World.check, Option.bind_eq_bind, Option.bind_eq_some_iff, Option.pure_def] at hw'
  obtain ⟨s, hs, hw'⟩ := hw'
  split at hw'
  next s' hactive =>
    cases hw'
    have hidle : s.isExpired w.now = false := by
      unfold RuntimeSession.ensureActive at hactive
      split at hactive
      · cases hactive
      next hnone => exact (inactiveError_eq_none hnone).2
    have L : Locks (w.sessions.adjust h (·.touch w.now)) (w.tasks.insert t (.evaluating h)) := by
      refine (I.core.locks.adjust fun s => (touch_frame s w.now).2.2.2).setTask fun h' hholds => ?_
      obtain rfl : h = h' := by
        rcases hholds with ⟨use', hholds⟩ | hholds <;> cases hholds
        rfl
      obtain ⟨s₁, hs₁, hlocked⟩ := I.core.locks t _ h ht (.inl ⟨_, rfl⟩)
      exact ⟨_, by rw [lookup_adjust_self, hs₁, map_some],
        (touch_frame s₁ w.now).2.2.2.trans hlocked⟩
    refine I.callers (I.core.sessions.adjust (fun s => (touch_frame s w.now).1) fun s =>
      ⟨(touch_frame s w.now).2.1, (touch_frame s w.now).2.2.1⟩) L (I.core.tokens.setTask nofun)
      (I.holding_outside ht outside_locked (fun t' hne => lookup_insert_ne hne)
        (fun s₁ hs₁ hexp _ => ?_) fun h' hne => ?_)
    · rw [hs] at hs₁
      cases hs₁
      rw [hidle] at hexp
      cases hexp
    · rw [lookup_insert]
      exact fun heq => hne (Task.evaluating.inj (some.inj heq)).symm
  · cases hw'
    exact I.release ht (.inl ⟨_, rfl⟩) (fun _ => rfl) (fun _ => ⟨rfl, rfl⟩) fun _ hexp => .inr hexp

theorem finish (I : Inv w) (ht : w.tasks.lookup t = some (.evaluating h)) : Inv (w.finish t h ok) := by
  refine I.release ht (.inr rfl) (fun s => ?_) (fun s => ?_) fun _ _ => .inl rfl
  all_goals
    dsimp only
    cases ok <;> first | rfl | exact ⟨rfl, rfl⟩

/-! ### Whole runs -/

theorem step (I : Inv w) (h : w.step a = some w') : Inv w' := by
  unfold World.step at h
  split at h
  · cases h
    exact I.tick
  · simp only [map_eq_some_iff, checkedAdd_eq_some] at h
    obtain ⟨token, ⟨_, rfl⟩, rfl⟩ := h
    exact I.callers I.core.sessions I.core.locks (I.core.tokens.mono (Nat.le_succ _)) I.holding
  next t profile sid ttlSec replace binding _ =>
    split at h
    · cases h
    next ht => exact I.prepare ht h
  next t call order hlock =>
    split at h
    next hcall =>
      cases h
      rw [Bool.and_eq_true] at hcall
      exact I.begin hlock hcall.1
    · cases h
  next sec hlock => exact I.prune hlock h
  next t request start before hlock =>
    split at h
    next w₁ replacement hselect =>
      cases h
      exact I.select hlock rfl rfl hselect
    · cases h
      exact I.endCall hlock rfl
  next millis t request replacement start before hlock =>
    obtain ⟨r, hcommit, rfl⟩ := map_eq_some_iff.mp h
    exact I.commit hlock rfl rfl hcommit
  next t use id expected start before hlock =>
    split at h
    · cases h
      exact I.getHandle hlock rfl
    · cases h
      exact I.endCall hlock rfl
  next hlock =>
    cases h
    exact I.endCall hlock rfl
  next t id expected start before hlock =>
    split at h
    next w₁ hmark =>
      cases h
      exact I.closeMark hlock rfl rfl hmark
    · cases h
      exact I.endCall hlock rfl
  next t id' expected id start before hlock =>
    obtain ⟨w₁, hretire, rfl⟩ := map_eq_some_iff.mp h
    exact I.closeRetire hlock rfl hretire
  next hlock =>
    cases h
    exact I.takeTokens hlock
  next t _ =>
    split at h
    next use session ht =>
      split at h
      next hfree =>
        cases h
        exact I.lockSession ht hfree
      · cases h
        exact I.leave ht
    · cases h
  next t _ =>
    split at h
    next use session ht =>
      cases h
      exact I.leave ht
    · cases h
  next t _ =>
    split at h
    next use session ht => exact I.check ht h
    · cases h
  next t ok _ =>
    split at h
    next session ht =>
      cases h
      exact I.finish ht
    · cases h
  · cases h

theorem run (I : Inv w) (h : w.run as = some w') : Inv w' := by
  induction as generalizing w with
  | nil =>
    cases h
    exact I
  | cons a as ih =>
    obtain ⟨w₁, hstep, hrest⟩ := bind_eq_some_iff.mp h
    exact ih (I.step hstep) hrest

end Inv

/-! ## The registry as its callers see it -/

/-- An insertion that ends without a lease, at the check of the current one or at its commit. -/
def Refuses (w : World) (request : InsertRequest) : Phase → Action → Prop
  | .body, .select => ∃ error, w.select request = .error error
  | .chosen replacement, .commit millis => ∃ error, w.commit request replacement millis = some (.error error)
  | _, _ => False

/-- What holds of the manager between any two sections. -/
structure Registry (w : World) : Prop where
  keyed : ∀ id entry, w.state.leases.lookup id = some entry → entry.leaseId = id
  current : ∀ sid id, w.state.sidIndex.lookup sid = some id ↔
    ∃ entry, w.state.leases.lookup id = some entry ∧ entry.sid = sid
  disjoint : ∀ id, id ∈ w.state.leases → id ∉ w.state.tombstones
  limit : w.state.leases.size ≤ maxLeases
  -- Identities are pairwise distinct, and generations grow, over everything that was ever inserted.
  history : LegalLog LegalEvent w.log
  inserted : ∀ id entry, w.state.leases.lookup id = some entry →
    .inserted id entry.sid entry.generation entry.ownerToken ∈ w.log
  live : ∀ id entry s, w.state.leases.lookup id = some entry → w.sessions.lookup entry.session = some s →
    closingId w.lock ≠ some id → s.terminalState = none ∧ s.closed = false
  commits : ∀ t request replacement start before millis,
    w.lock = some ⟨t, .insert request, .chosen replacement, start, before⟩ →
      (w.commit request replacement millis).isSome
  closes : ∀ t call id start before, w.lock = some ⟨t, call, .closing id, start, before⟩ →
    (w.retire id .closed).isSome
  refused : ∀ t request phase start before a w', w.lock = some ⟨t, .insert request, phase, start, before⟩ →
    Refuses w request phase a → w.step a = some w' → Kept before w'.state w'.log request.sid

theorem Inv.disjoint (I : Inv w) (hid : id ∈ w.state.leases) : id ∉ w.state.tombstones := by
  intro hburied
  obtain ⟨entry, hentry⟩ := mem_iff_lookup.mp hid
  obtain ⟨code, token, lapsed, hmem⟩ := I.core.history.buried id hburied
  exact (I.core.history.active id entry hentry).2 code token lapsed hmem

theorem Inv.refused (I : Inv w) (hlock : w.lock = some ⟨t, .insert request, phase, start, before⟩)
    (hrefuses : Refuses w request phase a) (h : w.step a = some w') :
    Kept before w'.state w'.log request.sid := by
  have hkept := I.kept _ request hlock rfl
  unfold Refuses at hrefuses
  split at hrefuses
  · obtain ⟨error, hselect⟩ := hrefuses
    simp only [World.step, hlock, hselect] at h
    cases h
    exact hkept
  · obtain ⟨error, hcommit⟩ := hrefuses
    simp only [World.step, hlock, hcommit] at h
    cases h
    exact hkept
  · exact hrefuses.elim

/-- Whatever callers do, and however their sections meet, the registry keeps its shape. -/
theorem World.registry {nextOwnerToken : ℕ} {as : List Action}
    (h : (new nextOwnerToken).run as = some w) : Registry w := by
  have I : Inv w := Inv.new.run h
  exact {
    keyed := I.core.maps.keyed
    current := I.core.maps.index
    disjoint := fun _ => I.disjoint
    limit := I.core.maps.limit
    history := I.core.legal
    inserted := fun id entry hentry => (I.core.history.active id entry hentry).1
    live := I.core.sessions.live
    commits := fun _ _ _ _ _ _ hlock => I.commit_isSome hlock rfl rfl
    closes := fun _ _ id _ _ hlock => retire_isSome (I.holding.closing _ id hlock rfl).1
    refused := fun _ _ _ _ _ _ _ hlock => I.refused hlock }

namespace Example

/-- An insertion by caller `t`, when `order` are the active leases. -/
def insertion (t : ℕ) (sid : String) (ttlSec : Option ℕ) (replace : Bool) (package : Option Package)
    (order : List String) (millis : ℕ) : List Action :=
  [.prepare t .systemLuaLib sid ttlSec replace (package.map Package.binding),
    .begin t (.insert ⟨.systemLuaLib, sid, ttlSec, replace, package⟩) order] ++
  replicate (order.length + 1) .prune ++ [.select, .commit millis]

/-- A lease, its replacement while the wall clock steps back, and an insertion that its package's
binding refuses. -/
def insertions : List Action :=
  insertion 0 "agent" none false (some ⟨1, .bound⟩) [] 20 ++
  insertion 0 "agent" (some 60) true (some ⟨2, .bound⟩) ["rt_20_1"] 10 ++
  insertion 0 "agent" none true (some ⟨3, .missing⟩) ["rt_10_2"] 30

theorem replaced_registry : ∃ w, (new 0).run insertions = some w ∧
    w.state.sidIndex.lookup "agent" = some "rt_10_2" ∧ w.log.length = 3 ∧ Registry w := by
  obtain ⟨w, hrun, hw⟩ := map_eq_some_iff.mp
    (show ((new 0).run insertions).map (fun w => (w.state.sidIndex.lookup "agent", w.log.length)) =
      some (some "rt_10_2", 3) by decide +kernel)
  obtain ⟨hcurrent, hlength⟩ := Prod.mk.inj hw
  exact ⟨w, hrun, hcurrent, hlength, registry hrun⟩

end Example

end LuaSkills.RuntimeLease
