import LuaSkills.Data.EventLog
import LuaSkills.Embedded.Identity
import LuaSkills.RuntimeLease.System

/-!
# The lease registry over whole runs

The identifier index and the active leases stay in bijection, whatever the callers do and however their
sections meet; lease identities and generations are never issued twice.
-/

namespace LuaSkills.RuntimeLease

open AList List Option

variable {st : RuntimeSessionManagerState} {entry : RuntimeSessionEntry} {session : RuntimeSession}
  {id sid : String} {code : TerminalCode} {sessions : AssocMap ℕ RuntimeSession} {log : List Event}
  {tasks : AssocMap ℕ Task} {w w' : World} {t n h : ℕ} {millis : ℕ} {token : Option ℕ}
  {request : InsertRequest}

/-! ## Lease identities -/

theorem digits_not_underscore (hc : c ∈ n.repr.toList) : c ≠ '_' := by
  rintro rfl
  rw [Nat.toList_repr] at hc
  have hdigit : '_'.isDigit = true := Nat.isDigit_of_mem_toDigits (b := 10) (by decide) (by decide) hc
  exact absurd hdigit (by decide)

theorem dropWhile_separated {first : List Char} (hfirst : ∀ d ∈ first, d ≠ c) :
    (first ++ c :: last).dropWhile (· ≠ c) = c :: last := by
  rw [dropWhile_append_of_pos fun d hd => by simpa using hfirst d hd]
  exact dropWhile_cons_of_neg (by simp)

/-- The part after the last separator is the sequence, whatever the wall clock said. -/
theorem leaseIdText_sequence {millis' sequence sequence' : ℕ}
    (h : leaseIdText millis sequence = leaseIdText millis' sequence') : sequence = sequence' := by
  have hlist := congrArg String.toList h
  simp only [leaseIdText, String.toList_append, append_assoc, append_cancel_left_eq,
    show "_".toList = ['_'] from rfl, singleton_append] at hlist
  have hdrop := congrArg (dropWhile (· ≠ '_')) hlist
  rw [dropWhile_separated fun _ => digits_not_underscore,
    dropWhile_separated fun _ => digits_not_underscore] at hdrop
  apply Nat.decimal_injective
  exact String.toList_injective (cons.inj hdrop).2

/-! ## What holds between sections -/

/-- What may follow what: an identity is inserted once, its generation is above all earlier ones of its
identifier and its owner token is new; a lease is retired once, with the token it was inserted with. -/
def LegalEvent (before : List Event) : Event → Prop
  | .inserted id sid generation token =>
    (∀ sid' g' token', .inserted id sid' g' token' ∉ before) ∧
    (∀ id' g' token', .inserted id' sid g' token' ∈ before → g' < generation) ∧
    ∀ k ∈ token, ∀ id' sid' g', .inserted id' sid' g' (some k) ∉ before
  | .retired id _ token _ => (∃ sid g, .inserted id sid g token ∈ before) ∧
    ∀ code' token' lapsed, .retired id code' token' lapsed ∉ before

structure Maps (st : RuntimeSessionManagerState) : Prop where
  keyed : ∀ id entry, st.leases.lookup id = some entry → entry.leaseId = id
  index : ∀ sid id, st.sidIndex.lookup sid = some id ↔
    ∃ entry, st.leases.lookup id = some entry ∧ entry.sid = sid
  limit : st.leases.size ≤ maxLeases

/-- The maps against everything that was ever issued. -/
structure History (st : RuntimeSessionManagerState) (log : List Event) : Prop where
  issued : ∀ id sid g token, .inserted id sid g token ∈ log →
    (∃ millis sequence, id = leaseIdText millis sequence ∧ sequence ≤ st.nextSequence) ∧
      g ≤ (st.generations.lookup sid).getD 0
  active : ∀ id entry, st.leases.lookup id = some entry →
    .inserted id entry.sid entry.generation entry.ownerToken ∈ log ∧
      ∀ code token lapsed, .retired id code token lapsed ∉ log
  buried : ∀ id, id ∈ st.tombstones → ∃ code token lapsed, .retired id code token lapsed ∈ log

/-- The sessions behind the leases. `closing` is the lease that `close` has marked and not yet
retired. -/
structure Sessions (st : RuntimeSessionManagerState) (sessions : AssocMap ℕ RuntimeSession)
    (nextAddress : ℕ) (closing : Option String) (log : List Event) : Prop where
  entry : ∀ id entry, st.leases.lookup id = some entry →
    ∃ s, sessions.lookup entry.session = some s ∧ s.leaseId = id
  live : ∀ id entry s, st.leases.lookup id = some entry → sessions.lookup entry.session = some s →
    closing ≠ some id → s.terminalState = none ∧ s.closed = false
  named : ∀ h s, sessions.lookup h = some s →
    h < nextAddress ∧ ∃ sid g token, .inserted s.leaseId sid g token ∈ log
  unique : ∀ h h' s s', sessions.lookup h = some s → sessions.lookup h' = some s' →
    s.leaseId = s'.leaseId → h = h'
  marked : ∀ h s code token lapsed, sessions.lookup h = some s →
    .retired s.leaseId code token lapsed ∈ log → s.terminalState ≠ none
  closing : ∀ id entry s, closing = some id → st.leases.lookup id = some entry →
    sessions.lookup entry.session = some s → s.terminalState ≠ none

def Task.Holds (task : Task) (h : ℕ) : Prop := (∃ use, task = .locked use h) ∨ task = .evaluating h

def Locks (sessions : AssocMap ℕ RuntimeSession) (tasks : AssocMap ℕ Task) : Prop :=
  ∀ t task h, tasks.lookup t = some task → task.Holds h →
    ∃ s, sessions.lookup h = some s ∧ s.lockedBy = some t

structure Tokens (tasks : AssocMap ℕ Task) (nextOwnerToken : ℕ) (log : List Event) : Prop where
  issued : ∀ id sid g k, .inserted id sid g (some k) ∈ log → k ≤ nextOwnerToken
  creating : ∀ t request package, tasks.lookup t = some (.creating request) →
    request.package = some package → package.ownerToken ≤ nextOwnerToken ∧
      ∀ id sid g, .inserted id sid g (some package.ownerToken) ∉ log
  once : ∀ t t' request request' package package', tasks.lookup t = some (.creating request) →
    tasks.lookup t' = some (.creating request') → request.package = some package →
    request'.package = some package' → package.ownerToken = package'.ownerToken → t = t'

def Phase.closingId : Phase → Option String
  | .closing id => some id
  | _ => none

def closingId (lock : Option Section) : Option String := lock.bind fun sec => sec.phase.closingId

/-- What the call under the manager's lock may rely on in its next section. -/
structure Holding (lock : Option Section) (st : RuntimeSessionManagerState)
    (sessions : AssocMap ℕ RuntimeSession) (tasks : AssocMap ℕ Task) (now : ℕ) : Prop where
  task : ∀ sec, lock = some sec → tasks.lookup sec.task = some (World.callTask sec.call)
  expired : ∀ sec todo expired, lock = some sec → sec.phase = .pruning todo expired → ∀ id ∈ expired,
    ∀ entry s, st.leases.lookup id = some entry → sessions.lookup entry.session = some s →
      s.isExpired now ∧ ∀ t, tasks.lookup t ≠ some (.evaluating entry.session)
  chosen : ∀ sec request replacement, lock = some sec → sec.call = .insert request →
    sec.phase = .chosen replacement → st.sidIndex.lookup request.sid = replacement
  closing : ∀ sec id, lock = some sec → sec.phase = .closing id →
    id ∈ st.leases ∧ ∀ request, sec.call ≠ .insert request

/-- The lease that was current when an insertion began still is, or had expired when it was retired. -/
def Kept (before st : RuntimeSessionManagerState) (log : List Event) (sid : String) : Prop :=
  ∀ id entry, before.sidIndex.lookup sid = some id → before.leases.lookup id = some entry →
    (st.sidIndex.lookup sid = some id ∧ st.leases.lookup id = some entry) ∨
    ∃ code token, .retired id code token true ∈ log

def Event.retiredToken : Event → Option ℕ
  | .retired _ _ token _ => token
  | .inserted .. => none

/-- The part of the invariant that does not look at the call under the lock. -/
structure Core (w : World) (closing : Option String) : Prop where
  maps : Maps w.state
  history : History w.state w.log
  sessions : Sessions w.state w.sessions w.nextAddress closing w.log
  locks : Locks w.sessions w.tasks
  tokens : Tokens w.tasks w.nextOwnerToken w.log
  handed : w.handedOut ++ w.state.retiredOwnerTokens = w.log.filterMap Event.retiredToken
  legal : LegalLog LegalEvent w.log

structure Inv (w : World) : Prop where
  core : Core w (closingId w.lock)
  holding : Holding w.lock w.state w.sessions w.tasks w.now
  kept : ∀ sec request, w.lock = some sec → sec.call = .insert request →
    Kept sec.before w.state w.log request.sid

/-! ## Retirement -/

theorem Maps.lookup_sidIndex (M : Maps st) (h : st.leases.lookup id = some entry) :
    st.sidIndex.lookup entry.sid = some id :=
  (M.index entry.sid id).mpr ⟨entry, h, rfl⟩

theorem Maps.sidIndex_detach (M : Maps st) (h : st.leases.lookup id = some entry) :
    (st.detach id entry code n).sidIndex = st.sidIndex.erase entry.sid :=
  if_pos (M.lookup_sidIndex h)

theorem Maps.detach (M : Maps st) (h : st.leases.lookup id = some entry) :
    Maps (st.detach id entry code n) where
  keyed id' entry' h' := by
    have h' : (st.leases.erase id).lookup id' = some entry' := h'
    exact M.keyed id' entry' (lookup_of_erase h').2
  index sid id' := by
    rw [M.sidIndex_detach h]
    show _ ↔ ∃ entry', (st.leases.erase id).lookup id' = some entry' ∧ entry'.sid = sid
    rw [lookup_erase_eq, lookup_erase_eq]
    have hindex := M.lookup_sidIndex h
    constructor
    · intro h'
      split at h'
      · cases h'
      next hsid =>
        obtain ⟨entry', hentry', rfl⟩ := (M.index sid id').mp h'
        refine ⟨entry', ?_, rfl⟩
        rw [if_neg, hentry']
        rintro rfl
        rw [hentry'] at h
        cases h
        exact hsid rfl
    · rintro ⟨entry', hentry', rfl⟩
      split at hentry'
      · cases hentry'
      next hid =>
        have hother := M.lookup_sidIndex hentry'
        rw [if_neg, hother]
        intro hsid
        rw [hsid, hindex] at hother
        exact hid (some.inj hother).symm
  limit := le_trans size_erase_le M.limit

theorem History.detach (H : History st log) (h : st.leases.lookup id = some entry) :
    History (st.detach id entry code n) (log ++ [.retired id code token lapsed]) where
  issued id' sid' g token' hmem := by
    rcases mem_append.mp hmem with hmem | hmem
    · exact H.issued id' sid' g token' hmem
    · cases mem_singleton.mp hmem
  active id' entry' h' := by
    have h' : (st.leases.erase id).lookup id' = some entry' := h'
    rw [lookup_erase_eq] at h'
    split at h'
    · cases h'
    next hne =>
      obtain ⟨hinserted, hretired⟩ := H.active id' entry' h'
      refine ⟨mem_append_left _ hinserted, fun code' token' lapsed' hmem => ?_⟩
      rcases mem_append.mp hmem with hmem | hmem
      · exact hretired code' token' lapsed' hmem
      · cases mem_singleton.mp hmem
        exact hne rfl
  buried id' h' := by
    rcases mem_insert .. |>.mp h' with rfl | h'
    · exact ⟨code, token, lapsed, mem_append_right _ (mem_singleton_self _)⟩
    · obtain ⟨code', token', lapsed', hmem⟩ := H.buried id' h'
      exact ⟨code', token', lapsed', mem_append_left _ hmem⟩

theorem lookup_adjust_named (hs : (sessions.adjust h f).lookup h' = some s)
    (hf : ∀ s, (f s).leaseId = s.leaseId) :
    ∃ s₀, sessions.lookup h' = some s₀ ∧ s.leaseId = s₀.leaseId ∧ (h' = h ∧ s = f s₀ ∨ h' ≠ h ∧ s = s₀) := by
  rw [lookup_adjust_eq] at hs
  split at hs
  next heq =>
    obtain ⟨s₀, hs₀, rfl⟩ := map_eq_some_iff.mp hs
    exact ⟨s₀, hs₀, hf s₀, .inl ⟨heq, rfl⟩⟩
  next hne => exact ⟨s, hs, rfl, .inr ⟨hne, rfl⟩⟩

theorem Sessions.detach {nextAddress : ℕ} {closing : Option String} {lapsed : Bool}
    (S : Sessions st sessions nextAddress closing log) (h : st.leases.lookup id = some entry)
    (hclosing : ∀ id', closing = some id' → id' = id) :
    Sessions (st.detach id entry code n)
      (sessions.adjust entry.session fun s => { s with terminalState := some code }) nextAddress none
      (log ++ [.retired id code token lapsed]) := by
  obtain ⟨s₀, hs₀, hname⟩ := S.entry id entry h
  have hlookup : ∀ {id' entry'}, (st.detach id entry code n).leases.lookup id' = some entry' →
      id' ≠ id ∧ st.leases.lookup id' = some entry' := by
    intro id' entry' h'
    have h' : (st.leases.erase id).lookup id' = some entry' := h'
    rw [lookup_erase_eq] at h'
    split at h'
    · cases h'
    next hne => exact ⟨hne, h'⟩
  -- Another lease has another session.
  have hother : ∀ {id' entry'}, id' ≠ id → st.leases.lookup id' = some entry' →
      entry'.session ≠ entry.session := by
    intro id' entry' hne h' heq
    obtain ⟨s', hs', hname'⟩ := S.entry id' entry' h'
    rw [heq, hs₀] at hs'
    cases hs'
    exact hne (hname'.symm.trans hname)
  refine ⟨fun id' entry' h' => ?_, fun id' entry' s h' hs _ => ?_, fun h' s hs => ?_,
    fun h₁ h₂ s₁ s₂ hs₁ hs₂ heq => ?_, fun h' s code' token' lapsed' hs hmem => ?_, nofun⟩
  · obtain ⟨hne, h'⟩ := hlookup h'
    rw [lookup_adjust_ne (hother hne h')]
    exact S.entry id' entry' h'
  · obtain ⟨hne, h'⟩ := hlookup h'
    rw [lookup_adjust_ne (hother hne h')] at hs
    exact S.live id' entry' s h' hs fun heq => hne (hclosing id' heq)
  · obtain ⟨s₁, hs₁, heq, -⟩ := lookup_adjust_named hs fun _ => rfl
    obtain ⟨hlt, sid', g, token', hmem⟩ := S.named h' s₁ hs₁
    exact ⟨hlt, sid', g, token', mem_append_left _ (heq ▸ hmem)⟩
  · obtain ⟨s₁', hs₁', heq₁, -⟩ := lookup_adjust_named hs₁ fun _ => rfl
    obtain ⟨s₂', hs₂', heq₂, -⟩ := lookup_adjust_named hs₂ fun _ => rfl
    exact S.unique h₁ h₂ s₁' s₂' hs₁' hs₂' (heq₁.symm.trans (heq.trans heq₂))
  · obtain ⟨s₁, hs₁, heq, ⟨rfl, rfl⟩ | ⟨hne, rfl⟩⟩ := lookup_adjust_named hs fun _ => rfl
    · simp
    · rcases mem_append.mp hmem with hmem | hmem
      · exact S.marked h' s code' token' lapsed' hs₁ hmem
      · have hid : s.leaseId = id := by
          cases mem_singleton.mp hmem
          rfl
        exact (hne (S.unique h' _ s s₀ hs₁ hs₀ (hid.trans hname.symm))).elim

theorem Locks.adjust {f : RuntimeSession → RuntimeSession} (L : Locks sessions tasks)
    (hf : ∀ s, (f s).lockedBy = s.lockedBy) : Locks (sessions.adjust h f) tasks := by
  intro t task h' ht hholds
  obtain ⟨s, hs, hlocked⟩ := L t task h' ht hholds
  rw [lookup_adjust_eq]
  split
  next heq => exact ⟨f s, by rw [hs, map_some], (hf s).trans hlocked⟩
  next => exact ⟨s, hs, hlocked⟩

theorem retire_eq_some : w.retire id code = some w' ↔ ∃ entry, w.state.leases.lookup id = some entry ∧
    w' = ({ w.setSession entry.session fun s => { s with terminalState := some code } with
      state := w.state.detach id entry code w.now }).record
        (.retired id code entry.ownerToken (w.lapsed entry)) := by
  simp only [World.retire, Option.bind_eq_bind, Option.bind_eq_some_iff, Option.pure_def,
    some.injEq]
  exact exists_congr fun _ => and_congr_right fun _ => eq_comm

theorem retire_isSome (h : id ∈ w.state.leases) : (w.retire id code).isSome := by
  obtain ⟨entry, hentry⟩ := mem_iff_lookup.mp h
  rw [retire_eq_some.mpr ⟨entry, hentry, rfl⟩]
  rfl

/-! ## Insertion -/

theorem Maps.publish (entry : RuntimeSessionEntry) (M : Maps st)
    (hsid : st.sidIndex.lookup entry.sid = none) (hid : id ∉ st.leases) (hname : entry.leaseId = id)
    (hroom : st.leases.size < maxLeases) :
    Maps { st with leases := st.leases.insert id entry, sidIndex := st.sidIndex.insert entry.sid id } where
  keyed id' entry' h := by
    rcases lookup_of_insert h with ⟨heq, rfl⟩ | ⟨-, h⟩
    · exact hname.trans heq.symm
    · exact M.keyed id' entry' h
  index sid' id' := by
    rw [lookup_insert_eq, lookup_insert_eq]
    constructor
    · intro h
      split at h
      next heq =>
        cases h
        exact ⟨entry, if_pos rfl, heq.symm⟩
      next hne =>
        obtain ⟨entry', hentry', rfl⟩ := (M.index sid' id').mp h
        refine ⟨entry', ?_, rfl⟩
        rw [if_neg, hentry']
        rintro rfl
        exact hid (mem_of_lookup hentry')
    · rintro ⟨entry', hentry', rfl⟩
      split at hentry'
      next heq =>
        cases hentry'
        rw [if_pos rfl, heq]
      next =>
        have hindex := M.lookup_sidIndex hentry'
        rw [if_neg, hindex]
        intro heq
        rw [heq, hsid] at hindex
        cases hindex
  limit := by
    show (st.leases.insert id entry).size ≤ maxLeases
    rw [size_insert_of_notMem hid]
    exact hroom

theorem History.publish (entry : RuntimeSessionEntry) (H : History st log)
    (hretired : ∀ code token lapsed, .retired id code token lapsed ∉ log)
    (hid : id = leaseIdText millis st.nextSequence)
    (hgeneration : st.generations.lookup entry.sid = some entry.generation) :
    History { st with leases := st.leases.insert id entry, sidIndex := st.sidIndex.insert entry.sid id }
      (log ++ [.inserted id entry.sid entry.generation entry.ownerToken]) where
  issued id' sid' g token hmem := by
    rcases mem_append.mp hmem with hmem | hmem
    · exact H.issued id' sid' g token hmem
    · cases mem_singleton.mp hmem
      refine ⟨⟨millis, st.nextSequence, hid, le_rfl⟩, ?_⟩
      show entry.generation ≤ (st.generations.lookup entry.sid).getD 0
      rw [hgeneration, getD_some]
  active id' entry' h := by
    rcases lookup_of_insert h with ⟨rfl, rfl⟩ | ⟨-, h⟩
    · refine ⟨mem_append_right _ (mem_singleton_self _), fun code token lapsed hmem => ?_⟩
      rcases mem_append.mp hmem with hmem | hmem
      · exact hretired code token lapsed hmem
      · cases mem_singleton.mp hmem
    · obtain ⟨hinserted, hno⟩ := H.active id' entry' h
      refine ⟨mem_append_left _ hinserted, fun code token lapsed hmem => ?_⟩
      rcases mem_append.mp hmem with hmem | hmem
      · exact hno code token lapsed hmem
      · cases mem_singleton.mp hmem
  buried id' h := by
    obtain ⟨code, token, lapsed, hmem⟩ := H.buried id' h
    exact ⟨code, token, lapsed, mem_append_left _ hmem⟩

theorem Sessions.publish {g : ℕ} (S : Sessions st sessions nextAddress none log)
    (hname : session.leaseId = id) (hlive : session.terminalState = none ∧ session.closed = false)
    (haddress : entry.session = nextAddress) (hfresh : ∀ sid g token, .inserted id sid g token ∉ log)
    (hretired : ∀ code token lapsed, .retired id code token lapsed ∉ log) :
    Sessions { st with leases := st.leases.insert id entry, sidIndex := st.sidIndex.insert entry.sid id }
      (sessions.insert nextAddress session) (nextAddress + 1) none
      (log ++ [.inserted id sid g token]) := by
  have hbelow : ∀ {h s}, sessions.lookup h = some s → h ≠ nextAddress := fun hs heq =>
    absurd (S.named _ _ hs).1 (heq ▸ lt_irrefl _)
  have hother : ∀ {h s}, sessions.lookup h = some s → s.leaseId ≠ id := by
    intro h s hs heq
    obtain ⟨-, sid', g', token', hmem⟩ := S.named h s hs
    exact hfresh sid' g' token' (heq ▸ hmem)
  refine ⟨fun id' entry' h => ?_, fun id' entry' s h hs hclosing => ?_, fun h s hs => ?_,
    fun h₁ h₂ s₁ s₂ hs₁ hs₂ heq => ?_, fun h s code' token' lapsed' hs hmem => ?_, nofun⟩
  · rcases lookup_of_insert h with ⟨heq, rfl⟩ | ⟨-, h⟩
    · exact ⟨session, by rw [haddress, lookup_insert], hname.trans heq.symm⟩
    · obtain ⟨s, hs, hs'⟩ := S.entry id' entry' h
      exact ⟨s, by rw [lookup_insert_ne (hbelow hs), hs], hs'⟩
  · rcases lookup_of_insert h with ⟨heq, rfl⟩ | ⟨-, h⟩
    · rw [haddress, lookup_insert] at hs
      cases hs
      exact hlive
    · obtain ⟨s', hs', -⟩ := S.entry id' entry' h
      rw [lookup_insert_ne (hbelow hs')] at hs
      exact S.live id' entry' s h hs hclosing
  · rcases lookup_of_insert hs with ⟨heq, rfl⟩ | ⟨-, hs⟩
    · refine ⟨heq ▸ Nat.lt_succ_self _, sid, g, token, ?_⟩
      rw [hname]
      exact mem_append_right _ (mem_singleton_self _)
    · obtain ⟨hlt, sid', g', token', hmem⟩ := S.named h s hs
      exact ⟨Nat.lt_succ_of_lt hlt, sid', g', token', mem_append_left _ hmem⟩
  · rw [lookup_insert_eq] at hs₁ hs₂
    split at hs₁
    next heq₁ =>
      cases hs₁
      split at hs₂
      next heq₂ => rw [heq₁, heq₂]
      next => exact (hother hs₂ (heq.symm.trans hname)).elim
    next =>
      split at hs₂
      next =>
        cases hs₂
        exact (hother hs₁ (heq.trans hname)).elim
      next => exact S.unique h₁ h₂ s₁ s₂ hs₁ hs₂ heq
  · rcases mem_append.mp hmem with hmem | hmem
    · rcases lookup_of_insert hs with ⟨-, rfl⟩ | ⟨-, hs⟩
      · exact (hretired code' token' lapsed' (hname ▸ hmem)).elim
      · exact S.marked h s code' token' lapsed' hs hmem
    · cases mem_singleton.mp hmem

theorem Locks.erase (L : Locks sessions tasks) : Locks sessions (tasks.erase t) := by
  intro t' task h ht hholds
  exact L t' task h (lookup_of_erase ht).2 hholds

theorem Tokens.publish (T : Tokens tasks nextOwnerToken log)
    (ht : tasks.lookup t = some (.creating request)) : Tokens (tasks.erase t) nextOwnerToken
      (log ++ [.inserted id sid g (request.package.map Package.ownerToken)]) where
  issued id' sid' g' k hmem := by
    rcases mem_append.mp hmem with hmem | hmem
    · exact T.issued id' sid' g' k hmem
    · obtain ⟨package, hp, hk⟩ : ∃ package, request.package = some package ∧ package.ownerToken = k := by
        have := mem_singleton.mp hmem
        injection this with _ _ _ htoken
        exact map_eq_some_iff.mp htoken.symm
      exact hk ▸ (T.creating t request package ht hp).1
  creating t' request' package' ht' hp' := by
    rw [lookup_erase_eq] at ht'
    split at ht'
    · cases ht'
    next hne =>
      obtain ⟨hle, hno⟩ := T.creating t' request' package' ht' hp'
      refine ⟨hle, fun id' sid' g' hmem => ?_⟩
      rcases mem_append.mp hmem with hmem | hmem
      · exact hno id' sid' g' hmem
      · have := mem_singleton.mp hmem
        injection this with _ _ _ htoken
        obtain ⟨package, hp, hk⟩ := map_eq_some_iff.mp htoken.symm
        exact hne (T.once t' t request' request package' package ht' ht hp' hp hk.symm)
  once t₁ t₂ r₁ r₂ p₁ p₂ h₁ h₂ := by
    rw [lookup_erase_eq] at h₁ h₂
    split at h₁
    · cases h₁
    · split at h₂
      · cases h₂
      · exact T.once t₁ t₂ r₁ r₂ p₁ p₂ h₁ h₂

namespace Core

variable {closing : Option String}

theorem setLock (C : Core w closing) : Core { w with lock := lock } closing :=
  ⟨C.maps, C.history, C.sessions, C.locks, C.tokens, C.handed, C.legal⟩

theorem retire (C : Core w closing) (h : w.retire id code = some w')
    (hclosing : ∀ id', closing = some id' → id' = id) : Core w' none := by
  obtain ⟨entry, hentry, rfl⟩ := retire_eq_some.mp h
  obtain ⟨hinserted, hretired⟩ := C.history.active id entry hentry
  have hold : ∀ {id' sid' g token}, .inserted id' sid' g token ∈
      w.log ++ [.retired id code entry.ownerToken (w.lapsed entry)] →
      .inserted id' sid' g token ∈ w.log := by
    intro id' sid' g token hmem
    rcases mem_append.mp hmem with hmem | hmem
    · exact hmem
    · cases mem_singleton.mp hmem
  refine ⟨C.maps.detach hentry, C.history.detach hentry, C.sessions.detach hentry hclosing,
    C.locks.adjust fun _ => rfl, ⟨fun id' sid' g k hmem => C.tokens.issued id' sid' g k (hold hmem),
      fun t request package ht hp => ?_, C.tokens.once⟩, ?_, C.legal.append ⟨⟨_, _, hinserted⟩, hretired⟩⟩
  rotate_left
  · show w.handedOut ++ (w.state.retiredOwnerTokens ++ entry.ownerToken.toList) =
      (w.log ++ [_]).filterMap Event.retiredToken
    rw [← append_assoc, C.handed, filterMap_append]
    cases entry.ownerToken <;> rfl
  obtain ⟨hle, hfresh⟩ := C.tokens.creating t request package ht hp
  exact ⟨hle, fun id' sid' g hmem => hfresh id' sid' g (hold hmem)⟩

theorem advance (sid : String) {sequence generation : ℕ} (C : Core w none)
    (hsequence : w.state.nextSequence ≤ sequence)
    (hgeneration : (w.state.generations.lookup sid).getD 0 ≤ generation) :
    Core (w.advance sid sequence generation) none := by
  refine ⟨⟨C.maps.keyed, C.maps.index, C.maps.limit⟩, ⟨fun id' sid' g token hmem => ?_, C.history.active,
    C.history.buried⟩, ⟨C.sessions.entry, C.sessions.live, C.sessions.named, C.sessions.unique,
      C.sessions.marked, C.sessions.closing⟩, C.locks, C.tokens, C.handed, C.legal⟩
  obtain ⟨⟨millis, sequence', hid, hle⟩, hg⟩ := C.history.issued id' sid' g token hmem
  refine ⟨⟨millis, sequence', hid, le_trans hle hsequence⟩, ?_⟩
  show g ≤ ((w.state.generations.insert sid generation).lookup sid').getD 0
  rw [lookup_insert_eq]
  split
  next heq =>
    rw [heq] at hg
    exact le_trans hg hgeneration
  next => exact hg

/-- The caller's task ends with the insertion. -/
theorem publish (C : Core w none) (ht : w.tasks.lookup t = some (.creating request))
    (hsid : w.state.sidIndex.lookup request.sid = none) (hroom : w.state.leases.size < maxLeases)
    (hgeneration : w.state.generations.lookup request.sid = some generation)
    (hids : ∀ id sid g token, .inserted id sid g token ∈ w.log →
      ∃ millis sequence, id = leaseIdText millis sequence ∧ sequence < w.state.nextSequence)
    (hgens : ∀ id g token, .inserted id request.sid g token ∈ w.log → g < generation) :
    Core ((w.publish request (leaseIdText millis w.state.nextSequence) generation).endTask t) none := by
  generalize hleaseId : leaseIdText millis w.state.nextSequence = leaseId
  have hfresh : ∀ sid g token, .inserted leaseId sid g token ∉ w.log := by
    intro sid g token hmem
    obtain ⟨millis', sequence', hid, hlt⟩ := hids leaseId sid g token hmem
    have := leaseIdText_sequence (hleaseId.trans hid)
    omega
  have hretired : ∀ code token lapsed, .retired leaseId code token lapsed ∉ w.log := by
    intro code token lapsed hmem
    obtain ⟨before, after, hlog, ⟨⟨sid, g, hinserted⟩, -⟩⟩ := C.legal.of_mem hmem
    exact hfresh sid g token (hlog ▸ mem_append_left _ hinserted)
  have hleases : leaseId ∉ w.state.leases := by
    intro hmem
    obtain ⟨entry, hentry⟩ := mem_iff_lookup.mp hmem
    exact hfresh _ _ _ (C.history.active leaseId entry hentry).1
  refine ⟨C.maps.publish (w.newEntry request leaseId generation) hsid hleases rfl hroom,
    C.history.publish (w.newEntry request leaseId generation) hretired hleaseId.symm hgeneration,
    C.sessions.publish rfl ⟨rfl, rfl⟩ rfl hfresh hretired, ?_, C.tokens.publish ht, ?_,
    C.legal.append ⟨hfresh, hgens, fun k hk => ?_⟩⟩
  · refine Locks.erase fun t' task h ht' hholds => ?_
    obtain ⟨s, hs, hlocked⟩ := C.locks t' task h ht' hholds
    refine ⟨s, ?_, hlocked⟩
    show (w.sessions.insert _ _).lookup h = some s
    rw [lookup_insert_ne, hs]
    exact ne_of_lt (C.sessions.named h s hs).1
  · show w.handedOut ++ w.state.retiredOwnerTokens = (w.log ++ [_]).filterMap Event.retiredToken
    rw [C.handed, filterMap_append]
    exact (append_nil _).symm
  · obtain ⟨package, hp, rfl⟩ := map_eq_some_iff.mp hk
    exact (C.tokens.creating t request package ht hp).2

theorem commit {replacement : Option String} (C : Core w none)
    (ht : w.tasks.lookup t = some (.creating request))
    (hchosen : w.state.sidIndex.lookup request.sid = replacement)
    (h : w.commit request replacement millis = some (.ok w')) : Core (w'.endTask t) none := by
  unfold World.commit at h
  split at h
  · cases h
  next sequence generation hprepare =>
    simp only [World.prepareLease, nextSequence, nextGeneration, Except.bind_eq_ok, refuseIf_eq_ok, okOr_eq_ok,
      checkedAdd_eq_some] at hprepare
    obtain ⟨_, hlimit, _, ⟨_, rfl⟩, _, ⟨_, rfl⟩, _, _, heq⟩ := hprepare
    cases heq
    simp only [Option.bind_eq_bind, Option.bind_eq_some_iff, Option.pure_def, Option.some.injEq,
      Except.ok.injEq] at h
    obtain ⟨w₁, hw₁, rfl⟩ := h
    have C₀ := C.advance request.sid (Nat.le_succ w.state.nextSequence) (Nat.le_succ _)
    have hids : ∀ id sid g token, .inserted id sid g token ∈ w.log → ∃ millis sequence,
        id = leaseIdText millis sequence ∧ sequence < w.state.nextSequence + 1 := by
      intro id sid g token hmem
      obtain ⟨⟨millis, sequence, hid, hle⟩, -⟩ := C.history.issued id sid g token hmem
      exact ⟨millis, sequence, hid, Nat.lt_succ_of_le hle⟩
    have hgens : ∀ id g token, .inserted id request.sid g token ∈ w.log →
        g < (w.state.generations.lookup request.sid).getD 0 + 1 := fun id g token hmem =>
      Nat.lt_succ_of_le (C.history.issued id request.sid g token hmem).2
    have hgeneration : ∀ n, (w.state.generations.insert request.sid n).lookup request.sid = some n :=
      fun n => lookup_insert _
    cases replacement with
    | none =>
      cases hw₁
      refine C₀.publish ht hchosen ?_ (hgeneration _) hids hgens
      exact Nat.lt_of_not_le fun hle => hlimit ⟨hle, rfl⟩
    | some existing =>
      have C₁ := C₀.retire hw₁ (by rintro _ ⟨⟩)
      obtain ⟨entry, hentry, rfl⟩ := retire_eq_some.mp hw₁
      have hsid : entry.sid = request.sid := by
        obtain ⟨entry', hentry', hsid'⟩ := (C.maps.index request.sid existing).mp hchosen
        cases hentry.symm.trans hentry'
        exact hsid'
      refine C₁.publish ht ?_ ?_ (hgeneration _) ?_ ?_
      · show ((w.advance _ _ _).state.detach _ _ _ _).sidIndex.lookup _ = none
        rw [C₀.maps.sidIndex_detach hentry, hsid]
        rw [lookup_erase_eq, if_pos rfl]
      · show (w.state.leases.erase existing).size < maxLeases
        have hentry : w.state.leases.lookup existing = some entry := hentry
        have hsize := size_of_lookup hentry
        have hlimit := C.maps.limit
        omega
      · intro id sid g token hmem
        rcases mem_append.mp hmem with hmem | hmem
        · exact hids id sid g token hmem
        · cases mem_singleton.mp hmem
      · intro id g token hmem
        rcases mem_append.mp hmem with hmem | hmem
        · exact hgens id g token hmem
        · cases mem_singleton.mp hmem

end Core

end LuaSkills.RuntimeLease
