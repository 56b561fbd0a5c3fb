import LuaSkills.FileWatcher.Accounts

/-!
# Runs of the file watcher

The books of the watcher agree with its live registrations in every run in which no native call fails
at a point where the code does not undo what it has already changed: when a move leaves its old path,
when it is to return there, and in a destructor.
-/

namespace LuaSkills.FileWatcher

open Function (update)
open Watcher AList

/-! ## Live registrations -/

/-- The references of the live registrations. -/
def live (registrations : AssocMap ℕ LiveWatchRegistrationState) : Tally := fun p =>
  { nonRecursive := registrations.countBy fun r => r.actual = ⟨p, false⟩
    recursive := registrations.countBy fun r => r.actual = ⟨p, true⟩ }

section
variable {registrations : AssocMap ℕ LiveWatchRegistrationState} {id : ℕ}
  {r r' : LiveWatchRegistrationState}

theorem live_insert : live (registrations.insert id r) = (live (registrations.erase id)).add r.actual := by
  obtain ⟨requested, ⟨path, recursive⟩, fallback⟩ := r
  funext p
  by_cases hp : p = path
  · subst hp
    cases recursive <;> simp [live, Tally.add, PathWatchCounts.increment, countBy_insert]
  · have hne : path ≠ p := fun h => hp h.symm
    rw [Tally.add_of_ne hp]
    simp [live, countBy_insert, hne]

theorem live_insert_of_fresh (h : registrations.lookup id = none) :
    live (registrations.insert id r) = (live registrations).add r.actual := by
  rw [live_insert, erase_of_notMem (lookup_eq_none.1 h)]

theorem live_of_lookup (h : registrations.lookup id = some r) :
    live registrations = (live (registrations.erase id)).add r.actual := by
  rw [← live_insert]
  funext p
  simp only [live, countBy_insert, countBy_of_lookup h]

theorem live_erase (h : registrations.lookup id = some r) :
    live (registrations.erase id) = (live registrations).remove r.actual := by
  rw [live_of_lookup h, Tally.remove_add]

theorem live_move (h : registrations.lookup id = some r) :
    live (registrations.insert id r') = ((live registrations).remove r.actual).add r'.actual := by
  rw [live_insert, live_erase h]

theorem live_bucket_pos (h : registrations.lookup id = some r) :
    0 < (live registrations r.actual.path).bucket r.actual.recursive := by
  rw [live_of_lookup h, Tally.add_self]
  exact PathWatchCounts.bucket_increment_pos

end

/-! ## The books -/

/-- The counts and the recorded modes are those of the live registrations, and no count was ever
lowered at zero. -/
structure Sound (s : Watcher) : Prop where
  counted : Counted (live s.registrations) s.pathRefCounts
  recorded : Recorded (live s.registrations) s.watchedPaths
  above : s.underflowed = false

/-- Two states with the same registrations, counts and recorded modes. -/
structure SameBooks (s s' : Watcher) : Prop where
  registrations : ∀ id, s'.registrations.lookup id = s.registrations.lookup id
  counts : ∀ p, s'.pathRefCounts.lookup p = s.pathRefCounts.lookup p
  modes : ∀ p, s'.watchedPaths.lookup p = s.watchedPaths.lookup p

theorem Sound.sameBooks {s' : Watcher} (h : Sound s) (hregistrations : s'.registrations = s.registrations)
    (hcounted : Counted (live s.registrations) s'.pathRefCounts)
    (hrecorded : Recorded (live s.registrations) s'.watchedPaths) : SameBooks s s' where
  registrations id := by rw [hregistrations]
  counts p := (hcounted p).trans (h.counted p).symm
  modes p := (hrecorded p).trans (h.recorded p).symm

/-- What a call leaves behind: sound books, and those from before if it failed. -/
structure Kept (s : Watcher) (result : Watcher × Outcome) : Prop where
  sound : Sound result.1
  failed : ∀ e, result.2 = .failed e → SameBooks s result.1
  returned : result.2 ≠ .panicked

theorem sound_empty : Sound {} := by
  refine ⟨fun p => ?_, fun p => ?_, rfl⟩
  · simp [shown, live, PathWatchCounts.isEmpty]
  · simp [live, PathWatchCounts.effectiveMode]

section
variable {s : Watcher}

/-- A call that fails after it took back the reference it had added. -/
theorem kept_withdraw {t : Watcher} {a : LiveWatchPath} (h : Sound s)
    (hregistrations : t.registrations = s.registrations)
    (hadded : CountedBut a.path ((live s.registrations).add a) t.pathRefCounts)
    (hrecorded : Recorded (live s.registrations) t.watchedPaths) (habove : t.underflowed = s.underflowed) :
    Kept s (t.withdraw a, .failed e) := by
  have hpos : 0 < ((live s.registrations).add a a.path).bucket a.recursive := by
    rw [Tally.add_self]
    exact PathWatchCounts.bucket_increment_pos
  have hcounted := hadded.withdraw_self hpos
  rw [Tally.remove_add] at hcounted
  have hsame : SameBooks s (t.withdraw a) := by
    refine h.sameBooks (registrations_withdraw.trans hregistrations) hcounted ?_
    rw [watchedPaths_withdraw]
    exact hrecorded
  refine ⟨⟨?_, ?_, ?_⟩, fun _ _ => hsame, fun hp => nomatch hp⟩
  · rw [registrations_withdraw, hregistrations]
    exact hcounted
  · rw [registrations_withdraw, hregistrations, watchedPaths_withdraw]
    exact hrecorded
  · rw [underflowed_withdraw hadded hpos, habove, h.above]

/-- A registration keeps the books, whatever its native calls answer. -/
theorem kept_registerPath (h : Sound s) (hfresh : s.registrations.lookup s.nextRegistrationId = none) :
    Kept s (s.registerPath r) := by
  unfold Watcher.registerPath
  cases habsolute : r.absolute with
  | error error =>
    exact ⟨h, fun e _ => ⟨fun _ => rfl, fun _ => rfl, fun _ => rfl⟩, fun hp => nomatch hp⟩
  | ok path =>
    dsimp only
    generalize actualWatchPath r.fs ⟨path, r.recursive⟩ = found
    obtain ⟨actual, fallback⟩ := found
    have hbut : CountedBut actual.path (live s.registrations) s.pathRefCounts := h.counted.but
    dsimp only
    rw [hbut.countsAt]
    obtain ⟨-, watched, heq, hrecorded⟩ | ⟨-, watched, e, heq, hrecorded⟩ :=
      reconfigure_cases (s := { s with nextRegistrationId := _ }.acquire actual) actual.path
        ((live s.registrations actual.path).increment actual.recursive) r.calls h.recorded
    · rw [heq]
      have hlive : live (s.registrations.insert s.nextRegistrationId
          ⟨⟨path, r.recursive⟩, actual, fallback⟩) = (live s.registrations).add actual :=
        live_insert_of_fresh hfresh
      refine ⟨⟨?_, ?_, h.above⟩, fun e he => (nomatch he), fun hp => nomatch hp⟩
      · exact hlive ▸ hbut.acquire_self
      · exact hlive ▸ hrecorded
    · rw [heq]
      exact kept_withdraw h rfl hbut.acquire hrecorded rfl

def answeredDrop (s : Watcher) (id : ℕ) (calls : NativeCalls) : Bool :=
  match s.registrations.lookup id with
  | none => true
  | some state =>
    let counts := countsAt s.pathRefCounts state.actual.path
    answered counts.effectiveMode (counts.decrement state.actual.recursive).effectiveMode calls

theorem kept_unregisterPath {id : ℕ} {calls : NativeCalls} (h : Sound s)
    (hcalls : answeredDrop s id calls) : Kept s (s.unregisterPath id calls) := by
  unfold Watcher.unregisterPath
  unfold answeredDrop at hcalls
  cases hid : s.registrations.lookup id with
  | none => exact ⟨h, fun e he => (nomatch he), fun hp => nomatch hp⟩
  | some state =>
    have hpos := live_bucket_pos hid
    have hbut : CountedBut state.actual.path (live s.registrations) s.pathRefCounts := h.counted.but
    simp only [hid, hbut.countsAt] at hcalls
    dsimp only
    rw [hbut.lookup hpos]
    dsimp only
    obtain ⟨-, watched, heq, hrecorded⟩ | ⟨hfailed, -⟩ :=
      reconfigure_cases (s := { s with registrations := s.registrations.erase id }.release state.actual
        (live s.registrations state.actual.path)) state.actual.path
        ((live s.registrations state.actual.path).decrement state.actual.recursive) calls h.recorded
    · rw [heq]
      refine ⟨⟨?_, ?_, ?_⟩, fun e he => (nomatch he), fun hp => nomatch hp⟩
      · exact live_erase hid ▸ hbut.release.removeIfEmpty
      · exact live_erase hid ▸ hrecorded
      · exact (underflowed_release hpos).trans h.above
    · exact absurd hcalls hfailed

/-- No native call fails where a move does not undo it: on leaving the old path, and on returning to it
when the next one cannot be watched. -/
def answeredMove (s : Watcher) (previous next : LiveWatchPath) (calls : MoveCalls) : Bool :=
  let counts := countsAt s.pathRefCounts previous.path
  let released := counts.decrement previous.recursive
  let nextCounts := if next.path = previous.path then released else countsAt s.pathRefCounts next.path
  answered counts.effectiveMode released.effectiveMode calls.leave ∧
    (answered nextCounts.effectiveMode (nextCounts.increment next.recursive).effectiveMode calls.enter ∨
      answered released.effectiveMode counts.effectiveMode calls.back)

/-- A move passes one reference on, or changes nothing. -/
theorem moveActualWatch_cases {previous : LiveWatchPath} (hcounted : Counted f s.pathRefCounts)
    (hrecorded : Recorded f s.watchedPaths) (hpos : 0 < (f previous.path).bucket previous.recursive)
    (hcalls : answeredMove s previous next calls) :
    ∃ t outcome, s.moveActualWatch previous next calls = (t, outcome) ∧
      t.registrations = s.registrations ∧ t.underflowed = s.underflowed ∧
      ((outcome = .done ∧ Counted ((f.remove previous).add next) t.pathRefCounts ∧
        Recorded ((f.remove previous).add next) t.watchedPaths) ∨
      ((∃ e, outcome = .failed e) ∧ Counted f t.pathRefCounts ∧ Recorded f t.watchedPaths)) := by
  have hbut : CountedBut previous.path f s.pathRefCounts := hcounted.but
  have hreleased := hbut.release
  have hacquired := hreleased.acquire (a := next)
  have hnext : (if next.path = previous.path then (f previous.path).decrement previous.recursive
      else f next.path) = f.remove previous next.path := by
    rw [Tally.remove, Function.update_apply]
  simp only [answeredMove, hbut.countsAt, hnext, Bool.decide_and, Bool.and_eq_true,
    Bool.decide_eq_true, decide_eq_true_eq] at hcalls
  obtain ⟨hleave, hback⟩ := hcalls
  simp only [Watcher.moveActualWatch, hbut.lookup hpos, hreleased.countsAt]
  obtain ⟨-, left, hleft, hrecorded⟩ | ⟨hfailed, -⟩ := reconfigure_cases
    (s := (s.release previous (f previous.path)).acquire next) previous.path
    ((f previous.path).decrement previous.recursive) calls.leave hrecorded
  · have hrecorded : Recorded (f.remove previous) left := hrecorded
    rw [hleft]
    dsimp only
    obtain ⟨-, entered, hentered, hrecorded⟩ | ⟨hfailed, entered, e, hentered, hrecorded⟩ :=
      reconfigure_cases (s := { (s.release previous (f previous.path)).acquire next with
        watchedPaths := left }) next.path
        ((f.remove previous next.path).increment next.recursive) calls.enter hrecorded
    · rw [hentered]
      exact ⟨_, _, rfl, rfl, underflowed_release hpos,
        Or.inl ⟨rfl, hacquired.removeIfEmpty, hrecorded⟩⟩
    · rw [hentered]
      dsimp only
      have hadded : 0 < ((f.remove previous).add next next.path).bucket next.recursive := by
        rw [Tally.add_self]
        exact PathWatchCounts.bucket_increment_pos
      -- both references are put back, and the old path returns to its mode
      generalize ht : ({ (s.release previous (f previous.path)).acquire next with
        watchedPaths := entered } : Watcher) = t
      have hwithdrawn : CountedBut previous.path (f.remove previous) (t.withdraw next).pathRefCounts := by
        have hwithdrawn := CountedBut.withdraw (s := t) (by rw [← ht]; exact hacquired) hadded
        rwa [Tally.remove_add] at hwithdrawn
      have hcounted : Counted f ((t.withdraw next).acquire previous).pathRefCounts := by
        have hcounted := hwithdrawn.acquire_self
        rwa [Tally.add_remove hpos] at hcounted
      have hrecorded : Recorded (f.remove previous)
          ((t.withdraw next).acquire previous).watchedPaths := by
        rw [show ((t.withdraw next).acquire previous).watchedPaths = t.watchedPaths from
          watchedPaths_withdraw, ← ht]
        exact hrecorded
      have habove : ((t.withdraw next).acquire previous).underflowed = s.underflowed := by
        rw [show ((t.withdraw next).acquire previous).underflowed = t.underflowed from
          underflowed_withdraw (by rw [← ht]; exact hacquired) hadded, ← ht]
        exact underflowed_release hpos
      have hregistrations : ((t.withdraw next).acquire previous).registrations = s.registrations := by
        rw [show ((t.withdraw next).acquire previous).registrations = t.registrations from
          registrations_withdraw, ← ht]
        rfl
      obtain ⟨-, back, hreturn, hback⟩ | ⟨hfailed', -⟩ :=
        reconfigure_cases previous.path (f previous.path) calls.back hrecorded
      · rw [Tally.remove_self] at hreturn
        rw [hreturn]
        have hback : Recorded f back := by
          have hsame : update (f.remove previous) previous.path (f previous.path) = f := by
            rw [Tally.remove, Function.update_idem, Function.update_eq_self]
          rwa [hsame] at hback
        exact ⟨_, _, rfl, hregistrations, habove, Or.inr ⟨⟨e, rfl⟩, hcounted, hback⟩⟩
      · rw [Tally.remove_self] at hfailed'
        exact absurd (hback.resolve_left hfailed) hfailed'
  · exact absurd hleave hfailed

/-- What the turn of a candidate needs of its native calls. -/
def answeredVisit (s : Watcher) (v : Visit) : Bool :=
  match s.registrations.lookup v.id with
  | none => true
  | some current =>
    let next := (actualWatchPath v.fs current.requested).1
    current.actual = next ∨ answeredMove s current.actual next v.calls

theorem kept_visitCandidate (h : Sound s) (hcalls : answeredVisit s v) : Kept s (s.visitCandidate v) := by
  unfold Watcher.visitCandidate
  unfold answeredVisit at hcalls
  cases hid : s.registrations.lookup v.id with
  | none => exact ⟨h, fun e he => (nomatch he), fun hp => nomatch hp⟩
  | some current =>
    rw [hid] at hcalls
    dsimp only at hcalls ⊢
    generalize actualWatchPath v.fs current.requested = found at hcalls ⊢
    obtain ⟨next, fallback⟩ := found
    have hpos := live_bucket_pos hid
    have hlive : live (s.registrations.insert v.id { current with actual := next, fallback := fallback }) =
        ((live s.registrations).remove current.actual).add next := live_move hid
    dsimp only at hcalls ⊢
    split_ifs with heq
    · have hlive : live (s.registrations.insert v.id { current with actual := next, fallback := fallback }) =
          live s.registrations := by
        rw [hlive, ← heq, Tally.add_remove hpos]
      refine ⟨⟨?_, ?_, h.above⟩, fun e he => (nomatch he), fun hp => nomatch hp⟩
      · exact hlive ▸ h.counted
      · exact hlive ▸ h.recorded
    · have hmove : answeredMove s current.actual next v.calls := by simpa [heq] using hcalls
      obtain ⟨t, outcome, hresult, hregistrations, habove, ⟨rfl, hcounted, hrecorded⟩ |
        ⟨⟨e, rfl⟩, hcounted, hrecorded⟩⟩ := moveActualWatch_cases h.counted h.recorded hpos hmove
      · rw [hresult]
        dsimp only
        rw [hregistrations]
        refine ⟨⟨?_, ?_, habove.trans h.above⟩, fun e he => (nomatch he), fun hp => nomatch hp⟩
        · exact hlive ▸ hcounted
        · exact hlive ▸ hrecorded
      · rw [hresult]
        refine ⟨⟨?_, ?_, habove.trans h.above⟩, fun _ _ => h.sameBooks hregistrations hcounted hrecorded,
          fun hp => nomatch hp⟩
        · exact hregistrations ▸ hcounted
        · exact hregistrations ▸ hrecorded

/-! ## Refreshes -/

/-- What the turns of a refresh need, each in the state it is taken in. -/
def answeredVisits (s : Watcher) : List Visit → Bool
  | [] => true
  | v :: rest => answeredVisit s v ∧
      ((s.visitCandidate v).2 = .done → answeredVisits (s.visitCandidate v).1 rest)

theorem refresh_cons_done (h : (s.visitCandidate v).2 = .done) :
    s.refreshFallbackPaths (v :: rest) = (s.visitCandidate v).1.refreshFallbackPaths rest := by
  cases hv : s.visitCandidate v with
  | mk t outcome =>
    rw [hv] at h
    cases h
    simp only [Watcher.refreshFallbackPaths, hv]

theorem refresh_cons_of_ne (h : (s.visitCandidate v).2 ≠ .done) :
    s.refreshFallbackPaths (v :: rest) = s.visitCandidate v := by
  unfold Watcher.refreshFallbackPaths
  split
  · rename_i heq
    exact absurd (by rw [heq]) h
  · rfl

theorem sound_refresh (h : Sound s) (hcalls : answeredVisits s visits) :
    Sound (s.refreshFallbackPaths visits).1 ∧ (s.refreshFallbackPaths visits).2 ≠ .panicked := by
  induction visits generalizing s with
  | nil => exact ⟨h, fun hp => nomatch hp⟩
  | cons v rest ih =>
    simp only [answeredVisits, decide_eq_true_eq] at hcalls
    have hkept := kept_visitCandidate h hcalls.1
    by_cases hdone : (s.visitCandidate v).2 = .done
    · rw [refresh_cons_done hdone]
      exact ih hkept.sound (hcalls.2 hdone)
    · rw [refresh_cons_of_ne hdone]
      exact ⟨hkept.sound, hkept.returned⟩

theorem kept_turn {before : List Visit} {v : Visit} (h : Sound s)
    (hcalls : answeredVisits s (before ++ v :: after)) (hdone : (s.refreshFallbackPaths before).2 = .done) :
    Kept (s.refreshFallbackPaths before).1 ((s.refreshFallbackPaths before).1.visitCandidate v) := by
  induction before generalizing s with
  | nil =>
    simp only [List.nil_append, answeredVisits, decide_eq_true_eq] at hcalls
    exact kept_visitCandidate h hcalls.1
  | cons u rest ih =>
    simp only [List.cons_append, answeredVisits, decide_eq_true_eq] at hcalls
    have hkept := kept_visitCandidate h hcalls.1
    by_cases hu : (s.visitCandidate u).2 = .done
    · rw [refresh_cons_done hu] at hdone ⊢
      exact ih hkept.sound (hcalls.2 hu) hdone
    · rw [refresh_cons_of_ne hu] at hdone
      exact absurd hdone hu

/-! ## Whole runs -/

/-- No native call fails at a point where the code does not undo what it has changed, and identifiers
have not run out. -/
def answeredEvent (s : Watcher) : Event → Bool
  | .register _ => s.registrations.lookup s.nextRegistrationId = none
  | .drop id calls => answeredDrop s id calls
  | .refresh visits => answeredVisits s visits

/-- What is promised of one call. -/
structure Faithful (s : Watcher) (event : Event) : Prop where
  sound : Sound (s.step event).1
  returned : (s.step event).2 ≠ .panicked
  register : ∀ r, event = .register r → ∀ e, (s.step event).2 = .failed e → SameBooks s (s.step event).1
  move : ∀ before v after, event = .refresh (before ++ v :: after) →
    (s.refreshFallbackPaths before).2 = .done →
    Kept (s.refreshFallbackPaths before).1 ((s.refreshFallbackPaths before).1.visitCandidate v)

theorem faithful_step (h : Sound s) (hcalls : answeredEvent s event) : Faithful s event := by
  cases event with
  | register r =>
    have hkept : Kept s (s.registerPath r) := kept_registerPath h (by simpa [answeredEvent] using hcalls)
    exact ⟨hkept.sound, hkept.returned, fun _ _ => hkept.failed, fun _ _ _ heq => nomatch heq⟩
  | drop id calls =>
    have hkept : Kept s (s.unregisterPath id calls) := kept_unregisterPath h hcalls
    exact ⟨hkept.sound, hkept.returned, fun _ heq => (nomatch heq), fun _ _ _ heq => nomatch heq⟩
  | refresh visits =>
    have hsound := sound_refresh h hcalls
    refine ⟨hsound.1, hsound.2, fun _ heq => (nomatch heq), fun before v after heq hdone => ?_⟩
    cases heq
    exact kept_turn h hcalls hdone

/-- A run of calls, each answered as far as it must be. -/
def AnsweredRun (s : Watcher) : List Event → Prop
  | [] => True
  | event :: rest => s.Possible event ∧ answeredEvent s event ∧ AnsweredRun (s.step event).1 rest

instance AnsweredRun.decidable (s : Watcher) : (events : List Event) → Decidable (AnsweredRun s events)
  | [] => inferInstanceAs (Decidable True)
  | event :: rest =>
    have := AnsweredRun.decidable (s.step event).1 rest
    inferInstanceAs (Decidable (s.Possible event ∧ _ ∧ _))

theorem faithful_of_answeredRun (hrun : AnsweredRun s events) (h : Sound s) :
    Sound (s.run events) ∧ ∀ before event after, events = before ++ event :: after →
      Sound (s.run before) ∧ Faithful (s.run before) event := by
  induction events generalizing s with
  | nil => exact ⟨h, fun before event after heq => absurd heq.symm (by simp)⟩
  | cons event rest ih =>
    have hstep := faithful_step h hrun.2.1
    obtain ⟨hend, hall⟩ := ih hrun.2.2 hstep.sound
    refine ⟨hend, fun before event' after heq => ?_⟩
    cases before with
    | nil =>
      cases heq
      exact ⟨h, hstep⟩
    | cons first before =>
      cases heq
      exact hall before event' after rfl

end

/-- In every run from the start whose calls are answered where they must be, the books agree with the
live registrations in every state, and every call leaves them as promised. -/
theorem faithful_run {events : List Event} (h : AnsweredRun {} events) :
    Sound (Watcher.run {} events) ∧ ∀ before event after, events = before ++ event :: after →
      Sound (Watcher.run {} before) ∧ Faithful (Watcher.run {} before) event :=
  faithful_of_answeredRun h sound_empty

section Samples

/-- The answers of a file system in which only the listed directories exist. -/
def directories (paths : List WatchPath) : FileSystem where
  pathExists p := paths.contains p
  isDir p := paths.contains p
  canonicalize p := some p

def registering (path : WatchPath) (fs : FileSystem) (calls : NativeCalls) : Event :=
  .register ⟨"", .ok path, false, fs, calls⟩

/-- A missing path moves from the root to itself, after a try that the backend refuses. -/
def movedRun : List Event :=
  [registering ["a"] (directories [[]]) {},
    .refresh [⟨0, directories [[], ["a"]], { enter := { watch := some "limit" } }⟩],
    .refresh [⟨0, directories [[], ["a"]], {}⟩],
    registering ["a", "b"] (directories [[], ["a"], ["a", "b"]]) { watch := some "limit" },
    .drop 0 {}]

theorem faithful_run_moved : AnsweredRun {} movedRun ∧ Sound (Watcher.run {} movedRun) :=
  have h : AnsweredRun {} movedRun := by decide
  ⟨h, (faithful_run h).1⟩

/-- The backend refuses to give up the root, another path falls back to the root and is dropped. -/
def driftedRun : List Event :=
  [registering ["a"] (directories [[]]) {},
    .refresh [⟨0, directories [[], ["a"]], { leave := { unwatch := some "lost" } }⟩],
    registering ["b"] (directories [[]]) {},
    .drop 1 {}]

/-- Leaving the old path fails: the counts have moved on, and later the count of a live registration is
gone. -/
theorem not_faithful_drifted :
    ¬ Sound (Watcher.run {} (driftedRun.take 2)) ∧
      ((Watcher.run {} driftedRun).step (.refresh [⟨0, directories [[], ["a"]], {}⟩])).2 = .panicked := by
  refine ⟨fun h => ?_, by decide⟩
  have hroot := h.counted []
  exact absurd hroot (by decide)

end Samples

end LuaSkills.FileWatcher
