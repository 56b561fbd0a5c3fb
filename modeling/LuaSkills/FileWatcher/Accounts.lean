import LuaSkills.FileWatcher.Watcher

/-!
# Reference counts and recorded modes

The counts and the recorded modes of a watcher are compared with a tally, the number of references to
each backend path. Each operation on the books is described by what it does to the tally they agree with.
While a move is under way the entry of the path it leaves may stay at zero (`CountedBut`).
-/

namespace LuaSkills.FileWatcher

open AList Option

open Function (update)

variable {p : WatchPath}

namespace PathWatchCounts
variable {counts : PathWatchCounts} {recursive : Bool}

theorem isEmpty_iff : counts.isEmpty ↔ counts = {} := by
  cases counts
  simp [isEmpty]

@[simp] theorem decrement_increment : (counts.increment recursive).decrement recursive = counts := by
  cases recursive <;> simp [increment, decrement]

theorem increment_decrement (h : 0 < counts.bucket recursive) :
    (counts.decrement recursive).increment recursive = counts := by
  cases recursive
  · simp only [bucket, Bool.false_eq_true, if_false] at h
    simp [increment, decrement, Nat.sub_add_cancel h]
  · simp only [bucket, if_true] at h
    simp [increment, decrement, Nat.sub_add_cancel h]

theorem bucket_increment_pos : 0 < (counts.increment recursive).bucket recursive := by
  cases recursive <;> simp [increment, bucket]

theorem not_isEmpty_of_bucket_pos (h : 0 < counts.bucket recursive) : counts.isEmpty = false := by
  cases recursive <;> simp [bucket, isEmpty] at h ⊢ <;> omega

theorem effectiveMode_empty : effectiveMode {} = none := rfl

end PathWatchCounts

/-- The number of references to each backend path. -/
abbrev Tally := WatchPath → PathWatchCounts

namespace Tally
variable {f : Tally} {a : LiveWatchPath}

def add (f : Tally) (a : LiveWatchPath) : Tally := update f a.path ((f a.path).increment a.recursive)

def remove (f : Tally) (a : LiveWatchPath) : Tally := update f a.path ((f a.path).decrement a.recursive)

@[simp] theorem add_self : f.add a a.path = (f a.path).increment a.recursive := Function.update_self ..

@[simp] theorem remove_self : f.remove a a.path = (f a.path).decrement a.recursive :=
  Function.update_self ..

theorem add_of_ne (h : p ≠ a.path) : f.add a p = f p := Function.update_of_ne h ..

theorem remove_of_ne (h : p ≠ a.path) : f.remove a p = f p := Function.update_of_ne h ..

@[simp] theorem remove_add : (f.add a).remove a = f := by
  funext p
  by_cases hp : p = a.path
  · subst hp
    simp
  · rw [remove_of_ne hp, add_of_ne hp]

theorem add_remove (h : 0 < (f a.path).bucket a.recursive) : (f.remove a).add a = f := by
  funext p
  by_cases hp : p = a.path
  · subst hp
    rw [add_self, remove_self, PathWatchCounts.increment_decrement h]
  · rw [add_of_ne hp, remove_of_ne hp]

end Tally

/-! ## Counts -/

/-- The entry of a path: there is one exactly when something refers to it. -/
def shown (counts : PathWatchCounts) : Option PathWatchCounts :=
  if counts.isEmpty then none else some counts

theorem shown_of_bucket_pos {counts : PathWatchCounts} (h : 0 < counts.bucket recursive) :
    shown counts = some counts := by
  rw [shown, PathWatchCounts.not_isEmpty_of_bucket_pos h]
  rfl

theorem getD_shown (counts : PathWatchCounts) : (shown counts).getD {} = counts := by
  unfold shown
  split_ifs with h
  · exact (PathWatchCounts.isEmpty_iff.1 h).symm
  · rfl

/-- The counts agree with the tally. -/
def Counted (f : Tally) (counts : AssocMap WatchPath PathWatchCounts) : Prop :=
  ∀ p, counts.lookup p = shown (f p)

/-- They agree, except that `path` may have an entry without references. -/
def CountedBut (path : WatchPath) (f : Tally) (counts : AssocMap WatchPath PathWatchCounts) : Prop :=
  ∀ p, counts.lookup p = shown (f p) ∨ p = path ∧ counts.lookup p = some (f p)

section
variable {f : Tally} {counts : AssocMap WatchPath PathWatchCounts} {path : WatchPath} {s : Watcher}
  {a : LiveWatchPath}

theorem Counted.but (h : Counted f counts) : CountedBut path f counts := fun p => Or.inl (h p)

theorem CountedBut.countsAt (h : CountedBut path f counts) (p : WatchPath) : countsAt counts p = f p := by
  obtain hp | ⟨-, hp⟩ := h p
  · rw [FileWatcher.countsAt, hp, getD_shown]
  · rw [FileWatcher.countsAt, hp]
    rfl

/-- A path that something refers to has an entry. -/
theorem CountedBut.lookup (h : CountedBut path f counts) (ha : 0 < (f a.path).bucket a.recursive) :
    counts.lookup a.path = some (f a.path) := by
  obtain hp | ⟨-, hp⟩ := h a.path
  · rw [hp, shown_of_bucket_pos ha]
  · exact hp

theorem lookup_removeIfEmpty :
    (removeIfEmpty counts path).lookup p =
      if p = path then (counts.lookup path).bind shown else counts.lookup p := by
  unfold removeIfEmpty
  cases hpath : counts.lookup path with
  | none =>
    rw [any_none, if_neg (by decide), bind_none]
    split_ifs with hp
    · rw [hp, hpath]
    · rfl
  | some c =>
    rw [any_some, bind_some]
    split_ifs with hc hp hp
    · rw [lookup_erase_eq, if_pos hp, shown, if_pos hc]
    · rw [lookup_erase_eq, if_neg hp]
    · rw [hp, hpath, shown, if_neg hc]
    · rfl

theorem bind_shown (c : PathWatchCounts) : (shown c).bind shown = shown c := by
  by_cases hc : c.isEmpty <;> simp [shown, hc]

theorem CountedBut.removeIfEmpty (h : CountedBut path f counts) :
    Counted f (removeIfEmpty counts path) := by
  intro p
  rw [lookup_removeIfEmpty]
  split_ifs with hp
  · subst hp
    obtain hp | ⟨-, hp⟩ := h p
    · rw [hp, bind_shown]
    · rw [hp, bind_some]
  · exact (h p).resolve_right fun hr => hp hr.1

theorem CountedBut.acquire (h : CountedBut path f s.pathRefCounts) :
    CountedBut path (f.add a) (s.acquire a).pathRefCounts := by
  intro p
  simp only [Watcher.acquire, h.countsAt, lookup_insert_eq]
  split_ifs with hp
  · subst hp
    rw [Tally.add_self]
    exact Or.inl (shown_of_bucket_pos PathWatchCounts.bucket_increment_pos).symm
  · rw [Tally.add_of_ne hp]
    exact h p

/-- Adding a reference to the path itself leaves no empty entry. -/
theorem CountedBut.acquire_self (h : CountedBut a.path f s.pathRefCounts) :
    Counted (f.add a) (s.acquire a).pathRefCounts := by
  intro p
  obtain hp | ⟨rfl, hp⟩ := h.acquire (a := a) p
  · exact hp
  · rw [hp, Tally.add_self, shown_of_bucket_pos PathWatchCounts.bucket_increment_pos]

theorem CountedBut.release (h : CountedBut a.path f s.pathRefCounts) :
    CountedBut a.path (f.remove a) (s.release a (f a.path)).pathRefCounts := by
  intro p
  simp only [Watcher.release, lookup_insert_eq]
  split_ifs with hp
  · subst hp
    exact Or.inr ⟨rfl, by rw [Tally.remove_self]⟩
  · rw [Tally.remove_of_ne hp]
    exact Or.inl ((h p).resolve_right fun hr => hp hr.1)

theorem CountedBut.lookup_withdraw (h : CountedBut path f s.pathRefCounts)
    (ha : 0 < (f a.path).bucket a.recursive) (p : WatchPath) :
    (s.withdraw a).pathRefCounts.lookup p =
      if p = a.path then shown (f.remove a p) else s.pathRefCounts.lookup p := by
  simp only [Watcher.withdraw, h.lookup ha, Watcher.release, lookup_removeIfEmpty,
    lookup_insert_eq, if_true, bind_some]
  split_ifs with hp
  · rw [hp, Tally.remove_self]
  · rfl

theorem CountedBut.withdraw (h : CountedBut path f s.pathRefCounts)
    (ha : 0 < (f a.path).bucket a.recursive) :
    CountedBut path (f.remove a) (s.withdraw a).pathRefCounts := by
  intro p
  rw [h.lookup_withdraw ha]
  split_ifs with hp
  · exact Or.inl rfl
  · rw [Tally.remove_of_ne hp]
    exact h p

theorem CountedBut.withdraw_self (h : CountedBut a.path f s.pathRefCounts)
    (ha : 0 < (f a.path).bucket a.recursive) :
    Counted (f.remove a) (s.withdraw a).pathRefCounts := by
  intro p
  rw [h.lookup_withdraw ha]
  split_ifs with hp
  · rfl
  · rw [Tally.remove_of_ne hp]
    exact (h p).resolve_right fun hr => hp hr.1

@[simp] theorem registrations_withdraw : (s.withdraw a).registrations = s.registrations := by
  unfold Watcher.withdraw
  split <;> rfl

@[simp] theorem watchedPaths_withdraw : (s.withdraw a).watchedPaths = s.watchedPaths := by
  unfold Watcher.withdraw
  split <;> rfl

theorem underflowed_release {counts : PathWatchCounts} (h : 0 < counts.bucket a.recursive) :
    (s.release a counts).underflowed = s.underflowed := by
  simp [Watcher.release, h.ne']

theorem underflowed_withdraw (h : CountedBut path f s.pathRefCounts)
    (ha : 0 < (f a.path).bucket a.recursive) : (s.withdraw a).underflowed = s.underflowed := by
  simp only [Watcher.withdraw, h.lookup ha]
  exact underflowed_release ha

end

/-! ## Recorded modes -/

def Recorded (f : Tally) (watchedPaths : AssocMap WatchPath RecursiveMode) : Prop :=
  ∀ p, watchedPaths.lookup p = (f p).effectiveMode

/-- No native call that the change of mode makes fails. -/
def answered (previousMode nextMode : Option RecursiveMode) (calls : NativeCalls) : Bool :=
  previousMode = nextMode ∨
    (previousMode.isSome → calls.unwatch = none) ∧ (nextMode.isSome → calls.watch = none)

section
variable {watched : AssocMap WatchPath RecursiveMode} {path : WatchPath}
  {previousMode nextMode : Option RecursiveMode} {calls : NativeCalls}

/-- What is recorded once the previous mode is given up. -/
theorem lookup_given_up (h : watched.lookup path = previousMode) :
    (if previousMode.isSome then watched.erase path else watched).lookup p =
      if p = path then none else watched.lookup p := by
  cases previousMode with
  | some mode => rw [isSome_some, if_pos rfl, lookup_erase_eq]
  | none =>
    rw [isSome_none, if_neg Bool.false_ne_true]
    split_ifs with hp
    · rw [hp, h]
    · rfl

/-- A reconfiguration succeeds when its calls do; it records the next mode or changes nothing. -/
theorem reconfigureWatch_cases (nextMode : Option RecursiveMode) (calls : NativeCalls)
    (h : watched.lookup path = previousMode) :
    (answered previousMode nextMode calls ∧
      (reconfigureWatch watched path previousMode nextMode calls).2 = .done ∧
      ∀ p, (reconfigureWatch watched path previousMode nextMode calls).1.lookup p =
        if p = path then nextMode else watched.lookup p) ∨
    (¬ answered previousMode nextMode calls ∧
      (∃ e, (reconfigureWatch watched path previousMode nextMode calls).2 = .failed e) ∧
      ∀ p, (reconfigureWatch watched path previousMode nextMode calls).1.lookup p =
        watched.lookup p) := by
  unfold reconfigureWatch
  by_cases heq : previousMode = nextMode
  · refine Or.inl ⟨by simp [answered, heq], by rw [if_pos heq], fun p => ?_⟩
    rw [if_pos heq]
    split_ifs with hp
    · rw [hp, h, heq]
    · rfl
  · simp only [if_neg heq]
    cases hunwatch : previousMode.bind fun _ => calls.unwatch with
    | some error =>
      obtain ⟨mode, rfl, herror⟩ := bind_eq_some_iff.1 hunwatch
      refine Or.inr ⟨?_, ⟨_, rfl⟩, fun p => rfl⟩
      simp [answered, heq, herror]
    | none =>
      have hgiven : previousMode.isSome → calls.unwatch = none := by
        cases previousMode with
        | some mode => exact fun _ => hunwatch
        | none => exact fun hsome => nomatch hsome
      cases nextMode with
      | none =>
        refine Or.inl ⟨?_, rfl, fun p => lookup_given_up h⟩
        exact decide_eq_true (Or.inr ⟨hgiven, fun hsome => nomatch hsome⟩)
      | some mode =>
        cases hwatch : calls.watch with
        | none =>
          refine Or.inl ⟨decide_eq_true (Or.inr ⟨hgiven, fun _ => hwatch⟩), rfl, fun p => ?_⟩
          rw [lookup_insert_eq, lookup_given_up h]
          split_ifs <;> rfl
        | some error =>
          refine Or.inr ⟨by simp [answered, heq, hwatch], ?_, fun p => ?_⟩
          · cases previousMode <;> exact ⟨_, rfl⟩
          · cases previousMode with
            | none =>
              dsimp only
              rw [lookup_given_up h]
              split_ifs with hp
              · rw [hp, h]
              · rfl
            | some previous =>
              dsimp only
              rw [lookup_insert_eq, lookup_given_up h]
              split_ifs with hp
              · rw [hp, h]
              · rfl

end

section
variable {f : Tally} {s : Watcher}

theorem reconfigure_cases (path : WatchPath) (c : PathWatchCounts) (calls : NativeCalls)
    (h : Recorded f s.watchedPaths) :
    (answered (f path).effectiveMode c.effectiveMode calls ∧
      ∃ watched, s.reconfigure path (f path).effectiveMode c.effectiveMode calls =
          ({ s with watchedPaths := watched }, .done) ∧ Recorded (update f path c) watched) ∨
    (¬ answered (f path).effectiveMode c.effectiveMode calls ∧
      ∃ watched e, s.reconfigure path (f path).effectiveMode c.effectiveMode calls =
          ({ s with watchedPaths := watched }, .failed e) ∧ Recorded f watched) := by
  simp only [Watcher.reconfigure]
  obtain ⟨hanswered, hdone, hlookup⟩ | ⟨hanswered, ⟨e, hfailed⟩, hlookup⟩ :=
    reconfigureWatch_cases c.effectiveMode calls (h path)
  · refine Or.inl ⟨hanswered, _, by rw [hdone], fun p => ?_⟩
    rw [hlookup, Function.update_apply]
    split_ifs with hp
    · rfl
    · exact h p
  · exact Or.inr ⟨hanswered, _, e, by rw [hfailed], fun p => (hlookup p).trans (h p)⟩

end

end LuaSkills.FileWatcher
