import LuaSkills.ManagedIo.Handle

/-!
# Flushing a managed file handle

A flush publishes the whole buffer, the suffix after the published length, or the dirty range, depending
on what the handle remembers of the backing file. All of the bookkeeping is written after the last call, so
a failed flush leaves the handle as it was.
-/

namespace LuaSkills.ManagedIo

open PathProg ManagedIoFileState

variable {record : ManagedIoBackingFingerprint → ManagedIoFileState}

abbrev FlushProg := EStateM Stop PathWorld

/-- A call whose failure becomes the runtime error of the flush. -/
abbrev flushing {α : Type} (x : PathProg α) : FlushProg α := failing "file:flush" x

def managedIoBackingFileMatchesLastFlush (observed : Observed) (s : ManagedIoFileState) :
    FlushProg Bool :=
  match s.flushedFingerprint with
  | none => return false
  | some expected => do
    match ← flushing (ifPresent openExisting) with
    | none => return false
    | some () =>
      let actual ← flushing (observe observed)
      return actual.platformGeneration.isSome && expected.platformGeneration.isSome && actual == expected

namespace ManagedIoFileState

/-- The bookkeeping after the buffer was published under `fingerprint`. -/
def published (s : ManagedIoFileState) (fingerprint : ManagedIoBackingFingerprint) :
    ManagedIoFileState :=
  { s with
    flushedLen := s.buffer.length
    flushInitialized := true
    flushedFingerprint := some fingerprint
    dirtyRange := none }

end ManagedIoFileState

def flushFullBuffer (observed : Observed) (s : ManagedIoFileState) : FlushProg ManagedIoFileState := do
  flushing openTruncate
  flushing (writeAt 0 s.buffer)
  flushing probe
  let fingerprint ← flushing (observe observed)
  return s.published fingerprint

/-- `seek`, `write_all`, `set_len` and `flush` on the file that was opened. -/
def writeRange (start : ℕ) (payload : List UInt8) (finalLen : ℕ) : FlushProg Unit := do
  flushing probe
  flushing (writeAt start payload)
  flushing (setLen finalLen)
  flushing probe

def flushWriteState (observed : Observed) (s : ManagedIoFileState) : FlushProg ManagedIoFileState := do
  if !s.flushInitialized || s.flushedLen > s.buffer.length then
    flushFullBuffer observed s
  else if !(← managedIoBackingFileMatchesLastFlush observed s) then
    flushFullBuffer observed s
  else if s.flushedLen = s.buffer.length then
    return s
  else
    match ← flushing (ifPresent openExisting) with
    | none => flushFullBuffer observed s
    | some () =>
      writeRange s.flushedLen (s.buffer.drop s.flushedLen) s.buffer.length
      let fingerprint ← flushing (observe observed)
      return { s with flushedLen := s.buffer.length, flushedFingerprint := some fingerprint }

def flushUpdateState (observed : Observed) (s : ManagedIoFileState) : FlushProg ManagedIoFileState := do
  if !s.flushInitialized then
    flushFullBuffer observed s
  else if !(← managedIoBackingFileMatchesLastFlush observed s) then
    flushFullBuffer observed s
  else
    match s.dirtyRange with
    | none => return s
    | some (dirtyStart, dirtyEnd) =>
      if ¬ (dirtyStart ≤ dirtyEnd ∧ dirtyEnd ≤ s.buffer.length) then
        throw .dirtyRangeOutside
      else
        match ← flushing (ifPresent openExisting) with
        | none => flushFullBuffer observed s
        | some () =>
          writeRange dirtyStart (s.buffer.extract dirtyStart dirtyEnd) s.buffer.length
          let fingerprint ← flushing (observe observed)
          return { s with
            flushedLen := s.buffer.length
            flushedFingerprint := some fingerprint
            dirtyRange := none }

/-- The flush of an append-only handle: the bytes after the flushed length go to the end of the file. -/
def flushAppendState (s : ManagedIoFileState) : FlushProg ManagedIoFileState :=
  if s.flushedLen > s.buffer.length then throw .panic
  else
    let pending := s.buffer.drop s.flushedLen
    if pending = [] then return s
    else do
      flushing openAppend
      flushing (writeEnd pending)
      return { s with flushedLen := s.buffer.length }

def flushState (observed : Observed) (s : ManagedIoFileState) : FlushProg ManagedIoFileState :=
  if s.mode.update then flushUpdateState observed s
  else
    match s.mode.kind with
    | .read => return s
    | .write => flushWriteState observed s
    | .append => flushAppendState s

/-- A handle together with what is at its path. -/
abbrev OpenFileProg := EStateM Stop (ManagedIoFileState × PathWorld)

def flush (observed : Observed) : OpenFileProg Bool := fun (s, w) =>
  match s.ensureFileIsOpen "file:flush" with
  | .error e => .error e (s, w)
  | .ok () =>
    match flushState observed s w with
    | .ok s' w' => .ok true (s', w')
    | .error e w' => .error e (s, w')

/-- The file of `io.tmpfile` is removed; one that is gone already is no failure. -/
def removeTemporary (s : ManagedIoFileState) : FlushProg Unit :=
  if s.deleteOnClose then do
    let _ ← failing "file:close: failed to remove temporary file" (ifPresent remove)
  else return ()

def close (observed : Observed) : OpenFileProg Bool := fun (s, w) =>
  if s.closed then .ok true (s, w)
  else
    match flushState observed s w with
    | .error e w' => .error e (s, w')
    | .ok s' w' =>
      match removeTemporary s' w' with
      | .error e w'' => .error e (s', w'')
      | .ok () w'' => .ok (s'.closeStatus.getD true) ({ s' with closed := true }, w'')

/-! ## What the handle remembers -/

/-- Every change of the file changes the fingerprint that it shows. -/
def TellsChanges (observed : Observed) : Prop :=
  ∀ f f', observed f = observed f' → f.generation = f'.generation

/-- The range of the buffer that the next incremental flush writes. -/
def ManagedIoFileState.pendingRange (s : ManagedIoFileState) : Option (ℕ × ℕ) :=
  if s.mode.update then s.dirtyRange else some (s.flushedLen, s.buffer.length)

/-- The cursor and the pending range lie in the buffer, and outside the range the buffer is what was
published last. -/
structure Booked (s : ManagedIoFileState) (old : List UInt8) : Prop where
  cursor : s.cursor ≤ s.buffer.length
  inside : ∀ a b, s.pendingRange = some (a, b) → a ≤ b ∧ b ≤ s.buffer.length
  covered : ∀ a b, s.pendingRange = some (a, b) → old.AgreeOutside s.buffer a b
  clean : s.pendingRange = none → old = s.buffer

/-- A file of the remembered fingerprint holds what was published last. -/
structure Remembers (observed : Observed) (s : ManagedIoFileState) (old : List UInt8) (p : FilePlace) :
    Prop where
  dated : p.Dated
  file : ∀ shown, s.flushedFingerprint = some shown →
    ∃ f, shown = observed f ∧ f.bytes = old ∧ f.generation < p.clock ∧
      ∀ f', p.file = some f' → f'.generation = f.generation → f' = f

open FilePlace PathWorld EStateM

variable {observed : Observed} {s s' : ManagedIoFileState} {old : List UInt8} {p₀ p : FilePlace} {A : Prop}

/-- What a handle remembers outlives every change. -/
theorem Remembers.reached (h : Remembers observed s old p₀) (hp : Reached p₀ p) :
    Remembers observed s old p where
  dated := hp.dated
  file shown hshown := by
    obtain ⟨f, hobserved, hold, hlt, hsame⟩ := h.file shown hshown
    refine ⟨f, hobserved, hold, Nat.lt_of_lt_of_le hlt hp.later.clock, fun f' hf' hgen => ?_⟩
    exact hsame f' (hp.later.eq_of_generation_lt hf' (hgen ▸ hlt)) hgen

/-- A file that shows the remembered fingerprint holds what was published last. -/
structure Known (observed : Observed) (s : ManagedIoFileState) (old : List UInt8) (p : FilePlace) :
    Prop where
  dated : p.Dated
  bytes : ∀ f, p.file = some f → s.flushedFingerprint = some (observed f) → f.bytes = old

theorem Remembers.known (h : Remembers observed s old p) (htells : TellsChanges observed) :
    Known observed s old p where
  dated := h.dated
  bytes f hf hshown := by
    obtain ⟨f', hobserved, hold, -, hsame⟩ := h.file _ hshown
    rw [hsame f hf (htells _ _ hobserved), hold]

/-! ## What a flush publishes -/

/-- The buffer is in the file, and the handle remembers the fingerprint of the file. -/
structure Published (observed : Observed) (s : ManagedIoFileState) (p₀ : FilePlace)
    (s' : ManagedIoFileState) (p : FilePlace) : Prop extends Holding p₀ s.buffer p where
  frame : s' = { s with
    flushedLen := s'.flushedLen
    flushInitialized := s'.flushInitialized
    flushedFingerprint := s'.flushedFingerprint
    dirtyRange := s'.dirtyRange }
  booked : Booked s' s.buffer
  fingerprint : ∃ f, p.file = some f ∧ s'.flushedFingerprint = some (observed f)

theorem triple_failing {α : Type} {x : PathProg α} {Q : α → PathWorld → Prop} (h : Triple P x Q E) :
    Triple P (failing operation x) Q E := triple_adaptExcept h

theorem booked_published (h : s.cursor ≤ s.buffer.length) : Booked (s.published shown) s.buffer where
  cursor := h
  inside a b hab := by
    unfold pendingRange ManagedIoFileState.published at hab
    split at hab
    · cases hab
    · cases hab
      exact ⟨Nat.le_refl _, Nat.le_refl _⟩
  covered a b hab := .refl
  clean _ := rfl

/-- The end of every strategy: the fingerprint of the file that holds the buffer is remembered. -/
theorem triple_remember
    (hrecord : ∀ shown p, Holding p₀ s.buffer p → (∃ f, p.file = some f ∧ shown = observed f) →
      Published observed s p₀ (record shown) p) :
    Triple (Under A (Holding p₀ s.buffer)) (do return record (← flushing (observe observed)))
      (fun s' => Under A (Published observed s p₀ s')) (Failed A (Reached p₀)) := by
  have hfile : ∀ p, Holding p₀ s.buffer p → ∃ f, p.file = some f := fun p hp => by
    obtain ⟨g, hg⟩ := hp.file_eq
    exact ⟨_, hg⟩
  refine (triple_failing (triple_look (.inl hfile) fun p hp => hp.toReached)).bind fun shown => ?_
  exact .pure fun w hw => ⟨hrecord shown _ hw.place.1 hw.place.2, hw.answers⟩

/-- The buffer is published whole, whatever the file was. -/
theorem triple_flushFullBuffer (h : s.cursor ≤ s.buffer.length) :
    Triple (Under A (Reached p₀)) (flushFullBuffer observed s)
      (fun s' => Under A (Published observed s p₀ s')) (Failed A (Reached p₀)) := by
  have hwhole : List.overlay 0 [] 0 s.buffer = s.buffer := List.overlay_length
  refine (triple_failing triple_openTruncate).bind fun _ => ?_
  refine (triple_failing (triple_writeAt (Nat.zero_le _))).bind fun _ => ?_
  rw [hwhole]
  refine (triple_failing (triple_probe fun _ hp => hp.toReached)).bind fun _ => ?_
  apply triple_remember
  rintro shown p hp ⟨f, hf, rfl⟩
  exact ⟨hp, rfl, booked_published h, f, hf, rfl⟩

/-- A file that agrees with the buffer outside the range becomes the buffer. -/
theorem triple_writeRange {b : ℕ} (hab : a ≤ b) (hb : b ≤ s.buffer.length)
    (hagree : old.AgreeOutside s.buffer a b) :
    Triple (Under A (Holding p₀ old)) (writeRange a (s.buffer.extract a b) s.buffer.length)
      (fun _ => Under A (Holding p₀ s.buffer)) (Failed A (Reached p₀)) := by
  have hold : a ≤ old.length := hagree.le_length (Nat.le_trans hab hb)
  refine (triple_failing (triple_probe fun _ hp => hp.toReached)).bind fun _ => ?_
  refine (triple_failing (triple_writeAt hold)).bind fun _ => ?_
  refine (triple_failing triple_setLen).bind fun _ => ?_
  rw [hagree.resize_overlay hab hb]
  exact triple_failing (triple_probe fun _ hp => hp.toReached)

/-- The file matches only if it shows the remembered fingerprint. -/
theorem triple_matches : Triple (Under A (· = p₀)) (managedIoBackingFileMatchesLastFlush observed s)
    (fun same => Under A fun p => p = p₀ ∧
      (same = true → ∃ f, p₀.file = some f ∧ s.flushedFingerprint = some (observed f)))
    (Failed A (· = p₀)) := by
  unfold managedIoBackingFileMatchesLastFlush
  split
  next => exact .pure fun w hw => ⟨⟨hw.place, nofun⟩, hw.answers⟩
  next expected hexpected =>
    refine (triple_failing (triple_ifPresent_openExisting fun _ hp => hp)).bind fun opened => ?_
    cases opened with
    | none => exact .pure fun w hw => ⟨⟨hw.place.1, nofun⟩, hw.answers⟩
    | some u =>
      refine (triple_failing (triple_look (.inl ?_) fun _ hp => hp.1)).bind fun actual => .pure ?_
      · rintro p ⟨-, hfile⟩
        exact Option.isSome_iff_exists.1 (hfile.1 rfl)
      · rintro w ⟨⟨⟨hp, -⟩, f, hf, rfl⟩, hanswers⟩
        refine ⟨⟨hp, fun hsame => ⟨f, hp ▸ hf, ?_⟩⟩, hanswers⟩
        rw [Bool.and_eq_true, beq_iff_eq] at hsame
        rw [hexpected, hsame.2]

/-- The strategies from the comparison on: what holds after it makes the rest right. -/
theorem triple_matches_bind {rest : Bool → FlushProg ManagedIoFileState} (hknown : Known observed s old p₀)
    (hchanged : Triple (Under A (Reached p₀)) (rest false) Q (Failed A (Reached p₀)))
    (hsame : (∃ f, p₀.file = some f ∧ s.flushedFingerprint = some (observed f)) →
      Triple (Under A fun p => p = p₀ ∧ Holding p₀ old p) (rest true) Q (Failed A (Reached p₀))) :
    Triple (Under A (· = p₀)) (managedIoBackingFileMatchesLastFlush observed s >>= rest) Q
      (Failed A (Reached p₀)) := by
  have hreached : Reached p₀ p₀ := .refl hknown.dated
  refine (triple_matches.mono (fun _ h => h) (fun _ _ h => h) ?_).bind fun same => ?_
  · rintro w ⟨hA, hp⟩
    exact ⟨hA, hp ▸ hreached⟩
  · cases same with
    | false =>
      refine hchanged.mono ?_ (fun _ _ h => h) fun _ h => h
      rintro w ⟨⟨hp, -⟩, hanswers⟩
      exact ⟨hp ▸ hreached, hanswers⟩
    | true =>
      rintro w ⟨⟨hp, hshown⟩, hanswers⟩
      obtain ⟨f, hf, hfingerprint⟩ := hshown rfl
      refine hsame ⟨f, hf, hfingerprint⟩ w ⟨⟨hp, ?_, ?_⟩, hanswers⟩
      · exact hp ▸ hreached
      · rw [bytes, hp, hf, Option.map_some, hknown.bytes f hf hfingerprint]

section
variable (hbooked : Booked s old) (hknown : Known observed s old p₀)
include hbooked hknown

theorem triple_fullAtOnce : Triple (Under A (· = p₀)) (flushFullBuffer observed s)
    (fun s' => Under A (Published observed s p₀ s')) (Failed A (Reached p₀)) := by
  refine (triple_flushFullBuffer hbooked.cursor).mono ?_ (fun _ _ h => h) fun _ h => h
  rintro w ⟨rfl, hanswers⟩
  exact ⟨.refl hknown.dated, hanswers⟩

/-- The range is written into the file that was opened, or the file is gone and the buffer is published. -/
theorem triple_publishRange {a : ℕ} (hpending : s.pendingRange = some (a, b))
    (hrecord : ∀ shown p, Holding p₀ s.buffer p → (∃ f, p.file = some f ∧ shown = observed f) →
      Published observed s p₀ (record shown) p) : Triple (Under A fun p => p = p₀ ∧ Holding p₀ old p)
      (do
        match ← flushing (ifPresent openExisting) with
        | none => flushFullBuffer observed s
        | some () =>
          writeRange a (s.buffer.extract a b) s.buffer.length
          let fingerprint ← flushing (observe observed)
          return record fingerprint)
      (fun s' => Under A (Published observed s p₀ s')) (Failed A (Reached p₀)) := by
  obtain ⟨hab, hb⟩ := hbooked.inside a b hpending
  refine (triple_failing (triple_ifPresent_openExisting fun _ hp => hp.2.toReached)).bind fun opened => ?_
  cases opened with
  | none =>
    refine (triple_fullAtOnce hbooked hknown).mono ?_ (fun _ _ h => h) fun _ h => h
    exact fun w hw => ⟨hw.place.1.1, hw.answers⟩
  | some u =>
    refine Triple.bind (Q := fun _ => Under A (Holding p₀ s.buffer)) ?_ fun _ => triple_remember hrecord
    refine (triple_writeRange hab hb (hbooked.covered a b hpending)).mono ?_ (fun _ _ h => h) fun _ h => h
    exact fun w hw => ⟨hw.place.1.2, hw.answers⟩

/-- Nothing is pending, and the file was not changed. -/
theorem triple_upToDate (hclean : old = s.buffer)
    (hshown : ∃ f, p₀.file = some f ∧ s.flushedFingerprint = some (observed f)) :
    Triple (Under A fun p => p = p₀ ∧ Holding p₀ old p) (return s : FlushProg ManagedIoFileState)
      (fun s' => Under A (Published observed s p₀ s')) (Failed A (Reached p₀)) := by
  subst hclean
  refine .pure fun w hw => ⟨⟨hw.place.2, rfl, hbooked, ?_⟩, hw.answers⟩
  rw [hw.place.1]
  exact hshown

theorem triple_flushWriteState (hmode : s.mode.update = false) :
    Triple (Under A (· = p₀)) (flushWriteState observed s)
      (fun s' => Under A (Published observed s p₀ s')) (Failed A (Reached p₀)) := by
  have hpending : s.pendingRange = some (s.flushedLen, s.buffer.length) := by
    rw [pendingRange, hmode]
    rfl
  unfold flushWriteState
  split
  next => exact triple_fullAtOnce hbooked hknown
  next =>
    refine triple_matches_bind hknown (triple_flushFullBuffer hbooked.cursor) fun hshown => ?_
    simp only [Bool.not_true, Bool.false_eq_true, if_false]
    split
    next hlen =>
      have hagree := hbooked.covered _ _ hpending
      rw [hlen] at hagree
      exact triple_upToDate hbooked hknown hagree.eq_of_empty hshown
    next =>
      have hsuffix : s.buffer.drop s.flushedLen = s.buffer.extract s.flushedLen s.buffer.length := by
        rw [List.extract_eq_take_drop, List.take_of_length_le (by simp)]
      rw [hsuffix]
      apply triple_publishRange hbooked hknown hpending
      rintro shown p hp ⟨f, hf, rfl⟩
      refine ⟨hp, rfl, ⟨hbooked.cursor, ?_, ?_, fun _ => rfl⟩, f, hf, rfl⟩
      all_goals
        intro a b hab
        simp only [pendingRange, hmode] at hab
        cases hab
      · exact ⟨Nat.le_refl _, Nat.le_refl _⟩
      · exact .refl

theorem triple_flushUpdateState (hmode : s.mode.update = true) :
    Triple (Under A (· = p₀)) (flushUpdateState observed s)
      (fun s' => Under A (Published observed s p₀ s')) (Failed A (Reached p₀)) := by
  have hpending : s.pendingRange = s.dirtyRange := by
    rw [pendingRange, hmode]
    rfl
  unfold flushUpdateState
  split
  next => exact triple_fullAtOnce hbooked hknown
  next =>
    refine triple_matches_bind hknown (triple_flushFullBuffer hbooked.cursor) fun hshown => ?_
    simp only [Bool.not_true, Bool.false_eq_true, if_false]
    split
    next hnone =>
      exact triple_upToDate hbooked hknown (hbooked.clean (hpending.trans hnone)) hshown
    next a b hrange =>
      rw [if_neg (not_not.2 (hbooked.inside a b (hpending.trans hrange)))]
      apply triple_publishRange hbooked hknown (hpending.trans hrange)
      rintro shown p hp ⟨f, hf, rfl⟩
      refine ⟨hp, rfl, ⟨hbooked.cursor, ?_, ?_, fun _ => rfl⟩, f, hf, rfl⟩
      all_goals
        intro a b hab
        simp only [pendingRange, hmode] at hab
        cases hab

/-- A flush of a handle for writing or update publishes the buffer, or it fails and leaves only what is
later. -/
theorem triple_flushState (hmode : s.mode.update = true ∨ s.mode.kind = .write) :
    Triple (Under A (· = p₀)) (flushState observed s)
      (fun s' => Under A (Published observed s p₀ s')) (Failed A (Reached p₀)) := by
  unfold flushState
  split
  next hupdate => exact triple_flushUpdateState hbooked hknown hupdate
  next hupdate =>
    rw [hmode.resolve_left hupdate]
    exact triple_flushWriteState hbooked hknown (Bool.eq_false_iff.2 hupdate)

end

/-! ## How a flush stops -/

/-- The program stops only where a call fails. -/
def StopsAtCalls {α : Type} (x : FlushProg α) : Prop :=
  ∀ w e w', x w = .error e w' → ∃ message, e = .runtime message

namespace StopsAtCalls
variable {α β : Type}

theorem pure {a : α} : StopsAtCalls (Pure.pure a : FlushProg α) := nofun

theorem failing {x : PathProg α} : StopsAtCalls (failing operation x) := by
  intro w e w' h
  unfold ManagedIo.failing EStateM.adaptExcept at h
  cases hx : x w with
  | ok a w₁ =>
    rw [hx] at h
    cases h
  | error e₁ w₁ =>
    rw [hx] at h
    cases h
    cases e₁ with
    | notFound | other error => exact ⟨_, rfl⟩

theorem bind {f : α → FlushProg β} (h : StopsAtCalls x) (hf : ∀ a, StopsAtCalls (f a)) :
    StopsAtCalls (x >>= f) := by
  intro w e w' hrun
  simp only [Bind.bind, EStateM.bind] at hrun
  cases hx : x w with
  | ok a w₁ =>
    rw [hx] at hrun
    exact hf a w₁ e w' hrun
  | error e₁ w₁ =>
    rw [hx] at hrun
    cases hrun
    exact h w _ _ hx

end StopsAtCalls

theorem stopsAtCalls_matches : StopsAtCalls (managedIoBackingFileMatchesLastFlush observed s) := by
  unfold managedIoBackingFileMatchesLastFlush
  split
  next => exact .pure
  next =>
    refine .bind .failing fun opened => ?_
    cases opened with
    | none => exact .pure
    | some u => exact .bind .failing fun _ => .pure

theorem stopsAtCalls_flushFullBuffer : StopsAtCalls (flushFullBuffer observed s) :=
  .bind .failing fun _ => .bind .failing fun _ => .bind .failing fun _ => .bind .failing fun _ => .pure

theorem stopsAtCalls_publishRange : StopsAtCalls (do
      match ← flushing (ifPresent openExisting) with
      | none => flushFullBuffer observed s
      | some () =>
        writeRange a payload n
        let fingerprint ← flushing (observe observed)
        return record fingerprint) := by
  refine .bind .failing fun opened => ?_
  cases opened with
  | none => exact stopsAtCalls_flushFullBuffer
  | some u =>
    refine .bind ?_ fun _ => .bind .failing fun _ => .pure
    exact .bind .failing fun _ => .bind .failing fun _ => .bind .failing fun _ => .failing

/-- The dirty range never lies outside the buffer, and no slice is out of bounds. -/
theorem stopsAtCalls_flushState (hinside : ∀ a b, s.pendingRange = some (a, b) →
    a ≤ b ∧ b ≤ s.buffer.length) : StopsAtCalls (flushState observed s) := by
  unfold flushState flushUpdateState flushWriteState flushAppendState
  cases hupdate : s.mode.update with
  | true =>
    simp only [if_true]
    split
    next => exact stopsAtCalls_flushFullBuffer
    next =>
      refine .bind stopsAtCalls_matches fun same => ?_
      split
      next => exact stopsAtCalls_flushFullBuffer
      next =>
        split
        next => exact .pure
        next a b hrange =>
          have hpending : s.pendingRange = some (a, b) := by rw [pendingRange, hupdate, if_pos rfl, hrange]
          rw [if_neg (not_not.2 (hinside a b hpending))]
          exact stopsAtCalls_publishRange
  | false =>
    have hpending : s.pendingRange = some (s.flushedLen, s.buffer.length) := by
      rw [pendingRange, hupdate]
      rfl
    simp only [Bool.false_eq_true, if_false]
    cases s.mode.kind with
    | read => exact .pure
    | write =>
      simp only
      split
      next => exact stopsAtCalls_flushFullBuffer
      next =>
        refine .bind stopsAtCalls_matches fun same => ?_
        split
        next => exact stopsAtCalls_flushFullBuffer
        next =>
          split
          next => exact .pure
          next => exact stopsAtCalls_publishRange
    | append =>
      simp only
      rw [if_neg (Nat.not_lt.2 (hinside _ _ hpending).1)]
      split
      next => exact .pure
      next => exact .bind .failing fun _ => .bind .failing fun _ => .pure

/-- A handle whose pending range fits its buffer stops only where a call fails. -/
theorem stops_runtime {answers : List (Option PathFault)}
    (hinside : ∀ a b, s.pendingRange = some (a, b) → a ≤ b ∧ b ≤ s.buffer.length)
    (h : flush observed (s, ⟨p, answers⟩) = .error e r ∨ close observed (s, ⟨p, answers⟩) = .error e r) :
    ∃ message, e = .runtime message := by
  have hflush : StopsAtCalls (flushState observed s) := stopsAtCalls_flushState hinside
  have hremove : ∀ s, StopsAtCalls (removeTemporary s) := by
    intro s
    unfold removeTemporary
    split
    · exact .bind .failing fun _ => .pure
    · exact .pure
  rcases h with h | h
  · simp only [flush, ensureFileIsOpen] at h
    split at h
    next hclosed =>
      cases h
      exact ⟨_, (refuseIf_eq_error.1 hclosed).2.symm⟩
    next =>
      split at h
      · cases h
      next hrun =>
        cases h
        exact hflush _ _ _ hrun
  · simp only [close] at h
    split at h
    · cases h
    · split at h
      next hrun =>
        cases h
        exact hflush _ _ _ hrun
      next =>
        split at h
        next hrun =>
          cases h
          exact hremove _ _ _ _ hrun
        next => cases h

end LuaSkills.ManagedIo
