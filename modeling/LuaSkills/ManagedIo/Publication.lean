import Mathlib.Data.List.ReduceOption
import LuaSkills.Data.Simulations
import LuaSkills.ManagedIo.Flush

/-!
# What the flushes of a handle publish

A handle is used, flushed and closed while others change its file and flushes fail after any part of their
work. A handle for writing or update leaves exactly its buffer in the file when a flush succeeds. An
append-only handle remembers no part of a failed write: each of its bytes is in the file once only if no
flush fails after writing something and others leave its bytes alone.
-/

namespace LuaSkills.ManagedIo

open EStateM ManagedIoFileState List Option ManagedIo

variable {n : ℕ} {bytes : List UInt8}

/-! ## Operations on the buffer -/

/-- What reads, writes and seeks leave as it is: the bookkeeping of flushes, and with it what is known of
the last published content. -/
structure Steady (s₀ s : ManagedIoFileState) : Prop where
  frame : s = { s₀ with buffer := s.buffer, cursor := s.cursor, dirtyRange := s.dirtyRange }
  grows : s₀.mode.update = false → s₀.buffer <+: s.buffer
  booked : ∀ old, Booked s₀ old → Booked s old

/-- Operations that are steady, whether they return or stop. -/
def KeepsSteady {α : Type} (x : HandleProg α) : Prop :=
  ∀ s₀, Triple (Steady s₀) x (fun _ => Steady s₀) (Steady s₀)

section
variable {α : Type} {c : TextCodec} {s₀ s s' : ManagedIoFileState} {old : List UInt8}

namespace Steady

theorem refl (s : ManagedIoFileState) : Steady s s where
  frame := rfl
  grows _ := prefix_refl _
  booked _ h := h

theorem trans (h : Steady s₀ s) (h' : Steady s s') : Steady s₀ s' where
  frame := by
    rw [h'.frame, h.frame]
  grows hmode := by
    have hsame : s.mode.update = false := by rw [h.frame]; exact hmode
    exact (h.grows hmode).trans (h'.grows hsame)
  booked old hold := h'.booked old (h.booked old hold)

theorem moveCursor (hn : s.cursor ≤ s.buffer.length → n ≤ s.buffer.length) :
    Steady s { s with cursor := n } where
  frame := rfl
  grows _ := prefix_refl _
  booked _ h := ⟨hn h.cursor, h.inside, h.covered, h.clean⟩

end Steady

namespace KeepsSteady

theorem of_steps {x : HandleProg α} (hok : ∀ s a s', x s = .ok a s' → Steady s s')
    (herror : ∀ s e s', x s = .error e s' → Steady s s') : KeepsSteady x := fun _ =>
  .intro (fun s a s' hs hx => hs.trans (hok s a s' hx)) fun s e s' hs hx => hs.trans (herror s e s' hx)

theorem pure {a : α} : KeepsSteady (Pure.pure a : HandleProg α) := fun _ => .pure fun _ h => h

theorem throw {e : Stop} : KeepsSteady (MonadExcept.throw e : HandleProg α) := fun _ => .throw fun _ h => h

theorem bind {β : Type} {f : α → HandleProg β} (h : KeepsSteady x) (hf : ∀ a, KeepsSteady (f a)) :
    KeepsSteady (x >>= f) := fun s₀ => (h s₀).bind fun a => hf a s₀

/-- A checked operation that only moves the cursor, and keeps it in the buffer. -/
theorem checked {check : ManagedIoFileState → Except Stop Unit}
    {op : ManagedIoFileState → Except Stop (α × ManagedIoFileState)}
    (hop : ∀ s a s', op s = .ok (a, s') → Steady s s') : KeepsSteady (checked check op) := by
  apply of_steps
  · intro s a s' h
    unfold ManagedIo.checked at h
    split at h
    · cases h
    · split at h
      next hrun =>
        cases h
        exact hop s a _ hrun
      next => cases h
  · intro s e s' h
    unfold ManagedIo.checked at h
    split at h
    · cases h
      exact .refl s
    · split at h
      · cases h
      · cases h
        exact .refl s

end KeepsSteady

theorem slice_eq_ok {buffer piece : List UInt8} (h : slice buffer a b = .ok piece) :
    a ≤ b ∧ b ≤ buffer.length ∧ piece = buffer.extract a b := by
  unfold slice at h
  split at h
  next hin =>
    cases h
    exact ⟨hin.1, hin.2, rfl⟩
  next => cases h

theorem keepsSteady_readAll : KeepsSteady (readAll c) := by
  apply KeepsSteady.checked
  intro s a s' h
  obtain ⟨bytes, -, h⟩ := Except.bind_eq_ok.1 h
  cases h
  exact .moveCursor fun _ => Nat.le_refl _

theorem keepsSteady_readOneLine : KeepsSteady (readOneLine c) := by
  apply KeepsSteady.checked
  intro s a s' h
  split at h
  · cases h
    exact .refl _
  · obtain ⟨remaining, -, h⟩ := Except.bind_eq_ok.1 h
    obtain ⟨line, hline, h⟩ := Except.bind_eq_ok.1 h
    cases h
    have hend := (slice_eq_ok hline).2.1
    refine .moveCursor fun _ => ?_
    split
    next hfeed => exact (List.getElem?_eq_some_iff.1 hfeed).1
    next => exact hend

theorem keepsSteady_readByteCount : KeepsSteady (readByteCount c size) := by
  apply KeepsSteady.checked
  intro s a s' h
  split at h
  · cases h
    exact .refl _
  · split at h
    · cases h
      exact .refl _
    · obtain ⟨bytes, -, h⟩ := Except.bind_eq_ok.1 h
      cases h
      exact .moveCursor fun _ => Nat.min_le_right _ _

theorem keepsSteady_readOne {format : LuaValue} : KeepsSteady (readOne c format) := by
  unfold readOne
  split
  · exact keepsSteady_readOneLine
  · split
    · exact .throw
    · split
      · exact keepsSteady_readAll
      · split
        · exact keepsSteady_readOneLine
        · exact .throw
  · exact keepsSteady_readByteCount
  · exact keepsSteady_readByteCount
  · exact .throw

theorem keepsSteady_readValues {formats : List LuaValue} : KeepsSteady (readValues c formats) := by
  have heach : ∀ formats, KeepsSteady (readEach c formats) := by
    intro formats
    induction formats with
    | nil => exact .pure
    | cons format formats ih => exact .bind keepsSteady_readOne fun _ => .bind ih fun _ => .pure
  unfold readValues
  split
  · exact .bind keepsSteady_readOneLine fun _ => .pure
  · exact heach formats

theorem keepsSteady_seek {whence : Option String} {offset : Option Int} :
    KeepsSteady (seek whence offset) := by
  apply KeepsSteady.checked
  intro s a s' h
  obtain ⟨next, -, h⟩ := Except.bind_eq_ok.1 h
  cases h
  exact .moveCursor fun _ => Nat.min_le_right _ _

theorem steady_extend (hmode : s.mode.update = false) :
    Steady s { s with buffer := s.buffer ++ bytes, cursor := (s.buffer ++ bytes).length } where
  frame := rfl
  grows _ := prefix_append _ _
  booked old h := by
    have hpending : s.pendingRange = some (s.flushedLen, s.buffer.length) := by
      rw [pendingRange, hmode]
      rfl
    obtain ⟨hstart, -⟩ := h.inside _ _ hpending
    have hlen : s.buffer.length ≤ (s.buffer ++ bytes).length := by simp
    have hpending' : pendingRange
        { s with buffer := s.buffer ++ bytes, cursor := (s.buffer ++ bytes).length } =
        some (s.flushedLen, (s.buffer ++ bytes).length) := by
      simp only [pendingRange, hmode]
      rfl
    refine ⟨Nat.le_refl _, fun a b hab => ?_, fun a b hab => ?_, fun hnone => ?_⟩
    · rw [hpending'] at hab
      cases hab
      exact ⟨Nat.le_trans hstart hlen, Nat.le_refl _⟩
    · rw [hpending'] at hab
      cases hab
      have hold := (h.covered _ _ hpending).mono (Nat.le_refl _) hlen
      exact hold.trans (AgreeOutside.append.mono hstart (Nat.le_refl _))
    · rw [hpending'] at hnone
      cases hnone

/-- What differs after a write was pending or is written. -/
theorem agreeOutside_joinRange {ys : List UInt8} {range : Option (ℕ × ℕ)} (hclean : range = none → old = xs)
    (hcovered : ∀ a b, range = some (a, b) → old.AgreeOutside xs a b) (hwritten : xs.AgreeOutside ys n stop) :
    old.AgreeOutside ys (joinRange range n stop).1 (joinRange range n stop).2 := by
  cases range with
  | none => exact hclean rfl ▸ hwritten
  | some range =>
    obtain ⟨a, b⟩ := range
    have hpast := (hcovered a b rfl).mono (Nat.min_le_left a n) (Nat.le_max_left b stop)
    exact hpast.trans (hwritten.mono (Nat.min_le_right a n) (Nat.le_max_right b stop))

theorem joinRange_inside {range : Option (ℕ × ℕ)} (hinside : ∀ a b, range = some (a, b) → a ≤ b ∧ b ≤ len)
    (hn : n ≤ stop) (hstop : stop ≤ len) :
    (joinRange range n stop).1 ≤ (joinRange range n stop).2 ∧ (joinRange range n stop).2 ≤ len := by
  cases range with
  | none => exact ⟨hn, hstop⟩
  | some range =>
    obtain ⟨a, b⟩ := range
    obtain ⟨hab, hb⟩ := hinside a b rfl
    simp only [joinRange]
    omega

theorem writePosition_le (h : s.cursor ≤ s.buffer.length) : s.writePosition ≤ s.buffer.length := by
  unfold writePosition
  split
  · exact Nat.le_refl _
  · exact h

/-- An update write is covered by the dirty range. -/
theorem booked_writeBytes (hmode : s.mode.update = true) (h : Booked s old) :
    Booked (s.writeBytes bytes) old := by
  have hpos := writePosition_le h.cursor
  have hdirty : ∀ s : ManagedIoFileState, s.mode.update = true → s.pendingRange = s.dirtyRange :=
    fun s hs => by rw [pendingRange, hs, if_pos rfl]
  have hsame : (s.writeBytes bytes).mode.update = true := by
    rw [writeBytes, if_pos hmode]
    exact hmode
  obtain ⟨hcursor, hinside, hcovered, hclean⟩ := h
  rw [hdirty s hmode] at hinside hcovered hclean
  have hlen : (s.writeBytes bytes).buffer.length =
      max s.buffer.length (s.writePosition + bytes.length) := by
    rw [writeBytes, if_pos hmode]
    exact length_overlay
  have hrange : (s.writeBytes bytes).dirtyRange =
      if s.writePosition < s.writePosition + bytes.length then
        some (joinRange s.dirtyRange s.writePosition (s.writePosition + bytes.length))
      else s.dirtyRange := by
    rw [writeBytes, if_pos hmode]
  have hwritten : s.buffer.AgreeOutside (s.writeBytes bytes).buffer s.writePosition
      (s.writePosition + bytes.length) := by
    rw [writeBytes, if_pos hmode]
    exact .overlay hpos
  have hcursor' : (s.writeBytes bytes).cursor ≤ (s.writeBytes bytes).buffer.length := by
    rw [hlen, writeBytes, if_pos hmode]
    exact Nat.le_max_right _ _
  by_cases hsome : s.writePosition < s.writePosition + bytes.length
  · rw [if_pos hsome] at hrange
    refine ⟨hcursor', fun a b hab => ?_, fun a b hab => ?_, fun hnone => ?_⟩
    · rw [hdirty _ hsame, hrange] at hab
      have hgrown : ∀ a b, s.dirtyRange = some (a, b) → a ≤ b ∧ b ≤ (s.writeBytes bytes).buffer.length := by
        intro a b hab
        obtain ⟨hle, hb⟩ := hinside a b hab
        omega
      have hin := joinRange_inside hgrown (Nat.le_of_lt hsome) (by omega)
      rwa [some.inj hab] at hin
    · rw [hdirty _ hsame, hrange] at hab
      have hin := agreeOutside_joinRange hclean hcovered hwritten
      rwa [some.inj hab] at hin
    · rw [hdirty _ hsame, hrange] at hnone
      cases hnone
  · rw [if_neg hsome] at hrange
    have hnil : bytes = [] := eq_nil_of_length_eq_zero (by omega)
    have hbuffer : (s.writeBytes bytes).buffer = s.buffer := by
      rw [writeBytes, if_pos hmode, hnil]
      exact overlay_nil hpos
    refine ⟨hcursor', ?_, ?_, ?_⟩
    all_goals rw [hdirty _ hsame, hrange, hbuffer]
    exacts [hinside, hcovered, hclean]

theorem steady_writeBytes : Steady s (s.writeBytes bytes) := by
  by_cases hmode : s.mode.update = true
  · refine ⟨?_, fun hno => ?_, fun old h => booked_writeBytes hmode h⟩
    · rw [writeBytes, if_pos hmode]
    · rw [hmode] at hno
      cases hno
  · rw [writeBytes, if_neg hmode]
    exact steady_extend (Bool.eq_false_iff.2 hmode)

theorem keepsSteady_writeEach : KeepsSteady (writeEach c values) := by
  induction values with
  | nil => exact .pure
  | cons value values ih =>
    intro s₀ s hs
    unfold writeEach
    cases luaValueToOutputBytes c value s.mode.binary with
    | error e => exact hs
    | ok bytes => exact ih s₀ _ (hs.trans steady_writeBytes)

theorem keepsSteady_writeValues {values : List LuaValue} : KeepsSteady (writeValues c values) := by
  refine .bind (.checked fun s a s' h => ?_) fun _ => .bind keepsSteady_writeEach fun _ => .pure
  cases h
  exact .refl s

end

/-! ## Sessions -/

/-- A byte of a file that others have changed: one that was there, or a new one. -/
inductive Piece where
  | kept (position : ℕ)
  | fresh (byte : UInt8)

/-- What happens to a handle and its file, with the answers to the calls of flushes. -/
inductive Event where
  | read (formats : List LuaValue)
  | write (values : List LuaValue)
  | seek (whence : Option String) (offset : Option Int)
  | flush (answers : List (Option PathFault))
  | close (answers : List (Option PathFault))
  | others (pieces : Option (List Piece))

/-- A handle with its file, the content that it published last, and for each byte of the file which byte
of the handle was appended there. -/
structure Session where
  handle : ManagedIoFileState
  place : FilePlace
  old : List UInt8
  origins : List (Option ℕ)

def Piece.byte (file : List UInt8) : Piece → UInt8
  | .kept i => file[i]?.getD 0
  | .fresh b => b

def Piece.origin (origins : List (Option ℕ)) : Piece → Option ℕ
  | .kept i => origins[i]?.join
  | .fresh _ => none

namespace Session

/-- The bytes at the place; none if there is no file. -/
def content (s : Session) : List UInt8 := s.place.bytes.getD []

/-- The handle opened on a place. -/
def opened (handle : ManagedIoFileState) (place : FilePlace) : Session where
  handle := handle
  place := place
  old := handle.buffer
  origins := (place.bytes.getD []).map fun _ => none

/-- The content that is published last once the handle was flushed with these answers. -/
def lastPublished (observed : Observed) (s : Session) (answers : List (Option PathFault)) : List UInt8 :=
  if s.handle.closed then s.old
  else
    match flushState observed s.handle ⟨s.place, answers⟩ with
    | .ok handle _ => handle.buffer
    | .error .. => s.old

/-- The session after a flush: what an append-only flush adds are the bytes after its flushed length. -/
def flushed (s : Session) (old : List UInt8) : ManagedIoFileState × PathWorld → Session
  | (handle, w) =>
    { handle := handle
      place := w.place
      old := old
      origins := s.origins ++
        (range' s.handle.flushedLen ((w.place.bytes.getD []).length - s.content.length)).map some }

def step (observed : Observed) (c : TextCodec) (s : Session) : Event → Session
  | .read formats => { s with handle := final (readValues c formats) s.handle }
  | .write values => { s with handle := final (writeValues c values) s.handle }
  | .seek whence offset => { s with handle := final (seek whence offset) s.handle }
  | .flush answers =>
    s.flushed (s.lastPublished observed answers)
      (final (flush observed) (s.handle, ⟨s.place, answers⟩))
  | .close answers =>
    s.flushed (s.lastPublished observed answers)
      (final (close observed) (s.handle, ⟨s.place, answers⟩))
  | .others pieces =>
    { s with
      place := s.place.change (pieces.map fun ps => ps.map (·.byte s.content))
      origins := (pieces.getD []).map (·.origin s.origins) }

def run (observed : Observed) (c : TextCodec) (s : Session) (events : List Event) : Session :=
  events.foldl (step observed c) s

end Session

/-- The modes that publish the whole buffer. -/
def ManagedIoOpenMode.PublishesWhole (m : ManagedIoOpenMode) : Prop := m.update = true ∨ m.kind = .write

def ManagedIoOpenMode.AppendOnly (m : ManagedIoOpenMode) : Prop := m.update = false ∧ m.kind = .append

/-- Every byte of the handle is in the file, each once and in the order of writing. -/
structure Session.OnceInOrder (s : Session) : Prop where
  origins : s.origins.reduceOption = range s.handle.buffer.length
  bytes : ∀ i k : ℕ, s.origins[i]? = some (some k) → s.content[i]? = s.handle.buffer[k]?

/-- What is promised of every state of a handle. -/
structure Session.Faithful (observed : Observed) (c : TextCodec) (s : Session) : Prop where
  flush : s.handle.mode.PublishesWhole → ∀ answers b handle w,
    flush observed (s.handle, ⟨s.place, answers⟩) = .ok b (handle, w) →
      w.place.bytes = some s.handle.buffer
  close : s.handle.mode.PublishesWhole → s.handle.closed = false → ∀ answers b handle w,
    close observed (s.handle, ⟨s.place, answers⟩) = .ok b (handle, w) →
      w.place.bytes = some s.handle.buffer
  inside : s.handle.mode.update = true → ∀ a b, s.handle.dirtyRange = some (a, b) →
    a ≤ b ∧ b ≤ s.handle.buffer.length
  covered : s.handle.mode.update = true → ∀ i, s.old[i]? ≠ s.handle.buffer[i]? →
    ∃ a b, s.handle.dirtyRange = some (a, b) ∧ a ≤ i ∧ i < b
  fits : ∀ answers e s',
    (ManagedIo.flush observed (s.handle, ⟨s.place, answers⟩) = .error e s' ∨
      ManagedIo.close observed (s.handle, ⟨s.place, answers⟩) = .error e s') → e ≠ .dirtyRangeOutside
  appended : s.handle.mode.AppendOnly → ∀ answers b s',
    ManagedIo.flush observed (s.handle, ⟨s.place, answers⟩) = .ok b s' →
      (s.step observed c (.flush answers)).OnceInOrder
  appendedClose : s.handle.mode.AppendOnly → s.handle.closed = false → ∀ answers b s',
    ManagedIo.close observed (s.handle, ⟨s.place, answers⟩) = .ok b s' →
      (s.step observed c (.close answers)).OnceInOrder

/-- A failed append that has written something. -/
def TornAppend (pending : List UInt8) (answers : List (Option PathFault)) : Prop :=
  ∃ fault rest, answers = none :: some fault :: rest ∧ pending.take fault.done ≠ []

/-- What an append-only handle depends on: no flush fails after writing something, and others leave the
bytes of the handle in the file, each once and in order. -/
def Session.Clean (s : Session) : Event → Prop
  | .flush answers | .close answers =>
    s.handle.closed = false → ¬ TornAppend (s.handle.buffer.drop s.handle.flushedLen) answers
  | .others pieces => ((pieces.getD []).map (·.origin s.origins)).reduceOption = s.origins.reduceOption
  | _ => True

def Session.CleanRun (observed : Observed) (c : TextCodec) (s : Session) : List Event → Prop
  | [] => True
  | e :: events => s.Clean e ∧ (s.step observed c e).CleanRun observed c events

/-! ## Whole buffers -/

/-- The state of a handle that publishes its whole buffer. -/
structure Session.Sound (observed : Observed) (m : ManagedIoOpenMode) (s : Session) : Prop where
  mode : s.handle.mode = m
  stays : s.handle.deleteOnClose = false
  booked : Booked s.handle s.old
  remembers : Remembers observed s.handle s.old s.place

section
variable {observed : Observed} {c : TextCodec} {s : Session} {m : ManagedIoOpenMode}
  {answers : List (Option PathFault)} {p₀ p : FilePlace} {handle handle' : ManagedIoFileState}
  {old : List UInt8}

theorem KeepsSteady.final {α : Type} {x : HandleProg α} (h : KeepsSteady x) (s : ManagedIoFileState) :
    Steady s (EStateM.final x s) := Triple.final (h s) (.refl s)

theorem Remembers.steady (h : Remembers observed handle old p) (hsteady : Steady handle handle') :
    Remembers observed handle' old p where
  dated := h.dated
  file := by
    rw [hsteady.frame]
    exact h.file

theorem Session.Sound.steady (h : s.Sound observed m) (hsteady : Steady s.handle handle') :
    Sound observed m { s with handle := handle' } where
  mode := by
    rw [hsteady.frame]
    exact h.mode
  stays := by
    rw [hsteady.frame]
    exact h.stays
  booked := hsteady.booked _ h.booked
  remembers := h.remembers.steady hsteady

/-- A published handle has nothing pending. -/
theorem Published.sound (hpublished : Published observed s.handle p₀ handle' p) (h : s.Sound observed m) :
    handle'.mode = m ∧ handle'.deleteOnClose = false ∧ Booked handle' handle'.buffer ∧
      Remembers observed handle' handle'.buffer p := by
  have hbuffer : handle'.buffer = s.handle.buffer := by rw [hpublished.frame]
  obtain ⟨f, hf, hfingerprint⟩ := hpublished.fingerprint
  obtain ⟨g, hg⟩ := hpublished.file_eq
  refine ⟨by rw [hpublished.frame]; exact h.mode, by rw [hpublished.frame]; exact h.stays,
    by rw [hbuffer]; exact hpublished.booked, hpublished.dated, fun shown hshown => ?_⟩
  refine ⟨f, some.inj (hshown.symm.trans hfingerprint), ?_, hpublished.dated f hf, ?_⟩
  · rw [hbuffer, some.inj (hf.symm.trans hg)]
  · intro f' hf' _
    exact some.inj (hf'.symm.trans hf)

theorem Session.Sound.flushState (h : s.Sound observed m) (hwhole : m.PublishesWhole)
    (htells : TellsChanges observed) (answers : List (Option PathFault)) :
    match flushState observed s.handle ⟨s.place, answers⟩ with
    | .ok handle' w' => Published observed s.handle s.place handle' w'.place
    | .error _ w' => FilePlace.Reached s.place w'.place := by
  rw [← h.mode] at hwhole
  have htriple := triple_flushState (A := True) h.booked (h.remembers.known htells) hwhole
  have hrun := htriple ⟨s.place, answers⟩ ⟨rfl, fun _ => trivial⟩
  cases hflush : ManagedIo.flushState observed s.handle ⟨s.place, answers⟩ with
  | ok handle' w' =>
    rw [hflush] at hrun
    exact hrun.place
  | error e w' =>
    rw [hflush] at hrun
    exact hrun.2

/-- A flush of the session keeps it sound, and when it succeeds the buffer is in the file. -/
theorem Session.Sound.flush (h : s.Sound observed m) (hwhole : m.PublishesWhole)
    (htells : TellsChanges observed) :
    (s.step observed c (.flush answers)).Sound observed m ∧
      ∀ b handle' w', ManagedIo.flush observed (s.handle, ⟨s.place, answers⟩) = .ok b (handle', w') →
        w'.place.bytes = some s.handle.buffer := by
  simp only [step, ManagedIo.flush, lastPublished, EStateM.final, ensureFileIsOpen]
  cases hclosed : s.handle.closed with
  | true =>
    refine ⟨⟨h.mode, h.stays, h.booked, h.remembers⟩, ?_⟩
    rintro b handle' w' ⟨⟩
  | false =>
    have hflush := h.flushState hwhole htells answers
    simp only [refuseIf, Bool.false_eq_true, if_false]
    cases hrun : ManagedIo.flushState observed s.handle ⟨s.place, answers⟩ with
    | ok handle' w' =>
      rw [hrun] at hflush
      obtain ⟨hmode, hstays, hbooked, hremembers⟩ := hflush.sound h
      constructor
      · exact ⟨hmode, hstays, hbooked, hremembers⟩
      · rintro b handle₁ w₁ ⟨⟩
        exact hflush.holds
    | error e w' =>
      rw [hrun] at hflush
      refine ⟨⟨h.mode, h.stays, h.booked, h.remembers.reached hflush⟩, ?_⟩
      rintro b handle₁ w₁ ⟨⟩

theorem Session.Sound.close (h : s.Sound observed m) (hwhole : m.PublishesWhole)
    (htells : TellsChanges observed) :
    (s.step observed c (.close answers)).Sound observed m ∧ (s.handle.closed = false →
      ∀ b handle' w', ManagedIo.close observed (s.handle, ⟨s.place, answers⟩) = .ok b (handle', w') →
        w'.place.bytes = some s.handle.buffer) := by
  simp only [step, ManagedIo.close, lastPublished, EStateM.final]
  cases hclosed : s.handle.closed with
  | true => exact ⟨⟨h.mode, h.stays, h.booked, h.remembers⟩, by rintro ⟨⟩⟩
  | false =>
    have hflush := h.flushState hwhole htells answers
    simp only [Bool.false_eq_true, if_false]
    cases hrun : ManagedIo.flushState observed s.handle ⟨s.place, answers⟩ with
    | ok handle' w' =>
      rw [hrun] at hflush
      obtain ⟨hmode, hstays, hbooked, hremembers⟩ := hflush.sound h
      have hremove : removeTemporary handle' w' = .ok () w' := by
        rw [removeTemporary, hstays]
        rfl
      simp only [hremove]
      constructor
      · exact ⟨hmode, hstays, ⟨hbooked.cursor, hbooked.inside, hbooked.covered, hbooked.clean⟩,
          hremembers.dated, hremembers.file⟩
      · rintro - b handle₁ w₁ ⟨⟩
        exact hflush.holds
    | error e w' =>
      rw [hrun] at hflush
      refine ⟨⟨h.mode, h.stays, h.booked, h.remembers.reached hflush⟩, ?_⟩
      rintro - b handle₁ w₁ ⟨⟩

theorem Session.Sound.step (h : s.Sound observed m) (hwhole : m.PublishesWhole)
    (htells : TellsChanges observed) (e : Event) : (s.step observed c e).Sound observed m := by
  cases e with
  | read formats => exact h.steady (keepsSteady_readValues.final _)
  | write values => exact h.steady (keepsSteady_writeValues.final _)
  | seek whence offset => exact h.steady (keepsSteady_seek.final _)
  | flush answers => exact (h.flush hwhole htells).1
  | close answers => exact (h.close hwhole htells).1
  | others pieces =>
    refine ⟨h.mode, h.stays, h.booked, h.remembers.reached ?_⟩
    exact (FilePlace.Reached.refl h.remembers.dated).changed

theorem Session.Sound.run (h : s.Sound observed m) (hwhole : m.PublishesWhole)
    (htells : TellsChanges observed) (events : List Event) :
    (s.run observed c events).Sound observed m := by
  induction events generalizing s with
  | nil => exact h
  | cons e events ih => exact ih (h.step hwhole htells e)

/-- A sound session keeps what is promised of a handle that publishes its whole buffer. -/
theorem Session.Sound.faithful (h : s.Sound observed m) (hwhole : m.PublishesWhole)
    (htells : TellsChanges observed) : s.Faithful observed c where
  flush _ answers b handle w := (h.flush (c := c) hwhole htells).2 b handle w
  close _ hopen answers b handle w := (h.close (c := c) hwhole htells).2 hopen b handle w
  inside hupdate a b hab := by
    apply h.booked.inside a b
    rw [pendingRange, hupdate, if_pos rfl, hab]
  covered hupdate i hne := by
    have hpending : s.handle.pendingRange = s.handle.dirtyRange := by
      rw [pendingRange, hupdate, if_pos rfl]
    cases hrange : s.handle.dirtyRange with
    | none => exact absurd (congrArg (·[i]?) (h.booked.clean (hpending.trans hrange))) hne
    | some range =>
      obtain ⟨a, b⟩ := range
      refine ⟨a, b, rfl, ?_⟩
      by_contra hout
      exact hne (h.booked.covered a b (hpending.trans hrange) i (by omega))
  fits answers e s' hstop := by
    obtain ⟨message, rfl⟩ := stops_runtime h.booked.inside hstop
    rintro ⟨⟩
  appended hmode := by
    rw [h.mode] at hmode
    rcases hwhole with hupdate | hkind
    · rw [hmode.1] at hupdate
      cases hupdate
    · rw [hmode.2] at hkind
      cases hkind
  appendedClose hmode := by
    rw [h.mode] at hmode
    rcases hwhole with hupdate | hkind
    · rw [hmode.1] at hupdate
      cases hupdate
    · rw [hmode.2] at hkind
      cases hkind

end

/-! ## Appended bytes -/

section
variable {observed : Observed} {c : TextCodec} {s : Session} {handle handle' : ManagedIoFileState}
  {p : FilePlace} {answers : List (Option PathFault)} {payload : List UInt8} {w : PathWorld}

theorem openAppend_run (p : FilePlace) (answers : List (Option PathFault)) :
    match PathProg.openAppend ⟨p, answers⟩ with
    | .ok _ w => w.place.bytes = some (p.bytes.getD []) ∧ w.answers = answers.tail ∧
        answers.head?.join = none
    | .error _ w => w.place = p := by
  unfold PathProg.openAppend PathProg.perform
  cases hanswer : answers.head?.join with
  | some fault => exact rfl
  | none =>
    refine ⟨?_, rfl, rfl⟩
    cases hfile : p.file with
    | none => simp [FilePlace.bytes, hfile, FilePlace.change]
    | some f => simp [FilePlace.bytes, hfile]

theorem writeEnd_run (payload : List UInt8) (hw : w.place.bytes = some old) :
    match PathProg.writeEnd payload w with
    | .ok _ w' => w'.place.bytes = some (old ++ payload)
    | .error _ w' => ∃ fault, w.answers.head?.join = some fault ∧
        w'.place.bytes = some (old ++ payload.take fault.done) := by
  have hoverlay : ∀ payload, (w.place.overlay old.length payload).bytes = some (old ++ payload) := by
    intro payload
    obtain ⟨f, hf, rfl⟩ := map_eq_some_iff.1 hw
    simp only [FilePlace.overlay, hf, overlay_length]
    split
    next hnil =>
      rw [hnil, append_nil]
      exact hw
    next => exact FilePlace.change_bytes
  unfold PathProg.writeEnd PathProg.writeAt PathProg.perform
  rw [hw]
  cases hanswer : w.answers.head?.join with
  | some fault => exact ⟨fault, rfl, hoverlay _⟩
  | none => exact hoverlay payload

theorem eq_of_head_tail {answers : List (Option PathFault)} (hhead : answers.head?.join = none)
    (htail : answers.tail.head?.join = some fault) : answers = none :: some fault :: answers.tail.tail := by
  cases answers with
  | nil => cases htail
  | cons first answers =>
    cases answers with
    | nil => cases htail
    | cons second answers =>
      cases hhead
      cases htail
      rfl

/-- An append-only flush appends what is pending, or fails; it has written something then only if the
write was torn. -/
theorem flushAppendState_run (p : FilePlace) (answers : List (Option PathFault))
    (hstart : handle.flushedLen ≤ handle.buffer.length) :
    match flushAppendState handle ⟨p, answers⟩ with
    | .ok handle' w => handle' = { handle with flushedLen := handle.buffer.length } ∧
        w.place.bytes.getD [] = p.bytes.getD [] ++ handle.buffer.drop handle.flushedLen
    | .error _ w => ¬ TornAppend (handle.buffer.drop handle.flushedLen) answers →
        w.place.bytes.getD [] = p.bytes.getD [] := by
  unfold flushAppendState
  rw [if_neg (Nat.not_lt.2 hstart)]
  by_cases hnil : handle.buffer.drop handle.flushedLen = []
  · rw [if_pos hnil]
    have hlen : handle.flushedLen = handle.buffer.length := by
      rw [drop_eq_nil_iff] at hnil
      exact Nat.le_antisymm hstart hnil
    refine ⟨?_, ?_⟩
    · rw [← hlen]
    · rw [hnil, append_nil]
  · rw [if_neg hnil]
    have hopen := openAppend_run p answers
    simp only [Bind.bind, EStateM.bind, flushing, failing, EStateM.adaptExcept]
    cases hrun : PathProg.openAppend ⟨p, answers⟩ with
    | error e w =>
      rw [hrun] at hopen
      intro _
      rw [hopen]
    | ok u w =>
      rw [hrun] at hopen
      obtain ⟨hbytes, hanswers, hhead⟩ := hopen
      have hwrite := writeEnd_run (handle.buffer.drop handle.flushedLen) hbytes
      simp only
      cases hrun' : PathProg.writeEnd (handle.buffer.drop handle.flushedLen) w with
      | ok u w' =>
        rw [hrun'] at hwrite
        refine ⟨rfl, ?_⟩
        rw [hwrite]
        rfl
      | error e w' =>
        rw [hrun'] at hwrite
        obtain ⟨fault, hfault, hbytes'⟩ := hwrite
        intro htorn
        have hnothing : (handle.buffer.drop handle.flushedLen).take fault.done = [] := by
          by_contra hsome
          exact htorn ⟨fault, _, eq_of_head_tail hhead (hanswers ▸ hfault), hsome⟩
        rw [hbytes', hnothing, append_nil]
        rfl

/-- The account of an append-only handle: the bytes up to the flushed length are in the file, each once
and in order. -/
structure Session.Accounted (s : Session) : Prop where
  mode : s.handle.mode.AppendOnly
  stays : s.handle.deleteOnClose = false
  start : s.handle.flushedLen ≤ s.handle.buffer.length
  length : s.origins.length = s.content.length
  origins : s.origins.reduceOption = range s.handle.flushedLen
  bytes : ∀ i k : ℕ, s.origins[i]? = some (some k) → s.content[i]? = s.handle.buffer[k]?

namespace Session.Accounted

theorem lt_of_origin (h : s.Accounted) {i : ℕ} (hk : s.origins[i]? = some (some k)) :
    k < s.handle.flushedLen := by
  have hmem : k ∈ s.origins.reduceOption := reduceOption_mem_iff.2 (mem_of_getElem? hk)
  rwa [h.origins, mem_range] at hmem

theorem onceInOrder (h : s.Accounted) (hall : s.handle.flushedLen = s.handle.buffer.length) :
    s.OnceInOrder := ⟨hall ▸ h.origins, h.bytes⟩

theorem steady (h : s.Accounted) (hsteady : Steady s.handle handle') :
    Accounted { s with handle := handle' } := by
  have hgrows := hsteady.grows h.mode.1
  have hlen : handle'.flushedLen = s.handle.flushedLen := by rw [hsteady.frame]
  refine ⟨?_, ?_, ?_, h.length, hlen ▸ h.origins, fun i k hk => ?_⟩
  · rw [hsteady.frame]
    exact h.mode
  · rw [hsteady.frame]
    exact h.stays
  · exact hlen ▸ Nat.le_trans h.start hgrows.length_le
  · have hin : k < s.handle.buffer.length := Nat.lt_of_lt_of_le (h.lt_of_origin hk) h.start
    obtain ⟨rest, hrest⟩ := hgrows
    refine (h.bytes i k hk).trans ?_
    rw [← hrest, getElem?_append_left hin]

theorem others (h : s.Accounted) {pieces : Option (List Piece)} (hclean : s.Clean (.others pieces)) :
    (s.step observed c (.others pieces)).Accounted := by
  have hcontent : (s.step observed c (.others pieces)).content =
      (pieces.getD []).map (·.byte s.content) := by
    unfold Session.content Session.step
    cases pieces with
    | none => rfl
    | some ps => rfl
  refine ⟨h.mode, h.stays, h.start, ?_, hclean.trans h.origins, fun i k hk => ?_⟩
  · rw [hcontent]
    simp only [Session.step, length_map]
  · rw [hcontent]
    simp only [Session.step, getElem?_map] at hk ⊢
    cases hpiece : (pieces.getD [])[i]? with
    | none =>
      rw [hpiece] at hk
      cases hk
    | some piece =>
      rw [hpiece] at hk
      cases piece with
      | fresh b => cases hk
      | kept j =>
        have hj : s.origins[j]? = some (some k) := by
          simpa [Piece.origin, join_eq_some_iff] using hk
        have hlt : j < s.content.length := h.length ▸ (List.getElem?_eq_some_iff.1 hj).1
        rw [← h.bytes j k hj, map_some, Piece.byte, getElem?_eq_getElem hlt, getD_some]

theorem appended (h : s.Accounted) (old : List UInt8) (closed : Bool)
    (hcontent : w.place.bytes.getD [] = s.content ++ s.handle.buffer.drop s.handle.flushedLen) :
    (s.flushed old ({ s.handle with flushedLen := s.handle.buffer.length, closed }, w)).Accounted := by
  have hpending : (s.content ++ s.handle.buffer.drop s.handle.flushedLen).length - s.content.length =
      s.handle.buffer.length - s.handle.flushedLen := by
    rw [length_append, length_drop]
    omega
  have hstart := h.start
  constructor
  case mode => exact h.mode
  case stays => exact h.stays
  case start => exact Nat.le_refl _
  case length =>
    have hlength := h.length
    unfold content at hlength
    simp only [content, flushed, hcontent, length_append, length_map, length_range',
      length_drop]
    omega
  case origins =>
    simp only [flushed, hcontent, hpending]
    have hid : (id ∘ some : ℕ → Option ℕ) = some := rfl
    have hrange := range'_append_1 (s := 0) (m := s.handle.flushedLen)
      (n := s.handle.buffer.length - s.handle.flushedLen)
    rw [Nat.zero_add, Nat.add_sub_cancel' hstart] at hrange
    rw [reduceOption_append, h.origins, range_eq_range', range_eq_range',
      reduceOption, filterMap_map, hid, filterMap_some, hrange]
  case bytes =>
    intro i k hk
    simp only [flushed, hcontent, hpending, getElem?_append] at hk
    simp only [content, flushed, hcontent]
    change (s.content ++ _)[i]? = _
    split at hk
    next hlt =>
      rw [getElem?_append_left (h.length ▸ hlt)]
      exact h.bytes i k hk
    next hge =>
      rw [getElem?_append_right (h.length ▸ Nat.not_lt.1 hge), ← h.length, getElem?_drop]
      rw [getElem?_map] at hk
      obtain ⟨k', hk', heq⟩ := map_eq_some_iff.1 hk
      cases heq
      obtain ⟨hin, rfl⟩ := List.getElem?_eq_some_iff.1 hk'
      rw [getElem_range', Nat.one_mul]

/-- A failed append that wrote nothing changes no account. -/
theorem unchanged (h : s.Accounted) (old : List UInt8) (hcontent : w.place.bytes.getD [] = s.content) :
    (s.flushed old (s.handle, w)).Accounted := by
  have horigins : (s.flushed old (s.handle, w)).origins = s.origins := by
    simp only [flushed, hcontent, Nat.sub_self, range'_zero, map_nil, append_nil]
  have hsame : (s.flushed old (s.handle, w)).content = s.content := hcontent
  refine ⟨h.mode, h.stays, h.start, ?_, ?_, ?_⟩
  · rw [horigins, hsame]
    exact h.length
  · rw [horigins]
    exact h.origins
  · rw [horigins, hsame]
    exact h.bytes

theorem flushState (h : s.Accounted) (observed : Observed) (answers : List (Option PathFault)) :
    match flushState observed s.handle ⟨s.place, answers⟩ with
    | .ok handle' w => handle' = { s.handle with flushedLen := s.handle.buffer.length } ∧
        w.place.bytes.getD [] = s.content ++ s.handle.buffer.drop s.handle.flushedLen
    | .error _ w => ¬ TornAppend (s.handle.buffer.drop s.handle.flushedLen) answers →
        w.place.bytes.getD [] = s.content := by
  have hstate : ManagedIo.flushState observed s.handle = flushAppendState s.handle := by
    rw [ManagedIo.flushState, h.mode.1, h.mode.2]
    rfl
  rw [hstate]
  exact flushAppendState_run s.place answers h.start

/-- A flush that was not torn keeps the account, and when it succeeds every byte is in the file. -/
theorem flush (h : s.Accounted) :
    (s.Clean (.flush answers) → (s.step observed c (.flush answers)).Accounted) ∧
      ∀ b r, ManagedIo.flush observed (s.handle, ⟨s.place, answers⟩) = .ok b r →
        (s.step observed c (.flush answers)).OnceInOrder := by
  have hrun := h.flushState observed answers
  simp only [step, Clean, ManagedIo.flush, final, ensureFileIsOpen]
  cases hclosed : s.handle.closed with
  | true =>
    refine ⟨fun _ => h.unchanged _ rfl, ?_⟩
    rintro b r ⟨⟩
  | false =>
    simp only [refuseIf, Bool.false_eq_true, if_false]
    cases hflush : ManagedIo.flushState observed s.handle ⟨s.place, answers⟩ with
    | ok handle' w =>
      rw [hflush] at hrun
      obtain ⟨rfl, hcontent⟩ := hrun
      have haccounted := h.appended (s.lastPublished observed answers) s.handle.closed hcontent
      exact ⟨fun _ => haccounted, fun _ _ _ => haccounted.onceInOrder rfl⟩
    | error e w =>
      rw [hflush] at hrun
      refine ⟨fun hclean => h.unchanged _ (hrun (hclean trivial)), ?_⟩
      rintro b r ⟨⟩

theorem close (h : s.Accounted) :
    (s.Clean (.close answers) → (s.step observed c (.close answers)).Accounted) ∧
      (s.handle.closed = false → ∀ b r,
        ManagedIo.close observed (s.handle, ⟨s.place, answers⟩) = .ok b r →
          (s.step observed c (.close answers)).OnceInOrder) := by
  have hrun := h.flushState observed answers
  simp only [step, Clean, ManagedIo.close, final]
  cases hclosed : s.handle.closed with
  | true => exact ⟨fun _ => h.unchanged _ rfl, by rintro ⟨⟩⟩
  | false =>
    simp only [Bool.false_eq_true, if_false]
    cases hflush : ManagedIo.flushState observed s.handle ⟨s.place, answers⟩ with
    | ok handle' w =>
      rw [hflush] at hrun
      obtain ⟨rfl, hcontent⟩ := hrun
      have hremove :
          removeTemporary { s.handle with flushedLen := s.handle.buffer.length } w = .ok () w := by
        rw [removeTemporary, h.stays]
        rfl
      simp only [hremove]
      have haccounted := h.appended (s.lastPublished observed answers) true hcontent
      exact ⟨fun _ => haccounted, fun _ _ _ _ => haccounted.onceInOrder rfl⟩
    | error e w =>
      rw [hflush] at hrun
      refine ⟨fun hclean => h.unchanged _ (hrun (hclean trivial)), ?_⟩
      rintro - b r ⟨⟩

theorem step (h : s.Accounted) {e : Event} (hclean : s.Clean e) : (s.step observed c e).Accounted := by
  cases e with
  | read formats => exact h.steady (keepsSteady_readValues.final _)
  | write values => exact h.steady (keepsSteady_writeValues.final _)
  | seek whence offset => exact h.steady (keepsSteady_seek.final _)
  | flush answers => exact h.flush.1 hclean
  | close answers => exact h.close.1 hclean
  | others pieces => exact h.others hclean

theorem run (h : s.Accounted) (hclean : s.CleanRun observed c events) :
    (s.run observed c events).Accounted := by
  induction events generalizing s with
  | nil => exact h
  | cons e events ih => exact ih (h.step hclean.1) hclean.2

/-- An account that is kept keeps what is promised of an append-only handle. -/
theorem faithful (h : s.Accounted) : s.Faithful observed c where
  flush hwhole := by
    rcases hwhole with hupdate | hkind
    · rw [h.mode.1] at hupdate
      cases hupdate
    · rw [h.mode.2] at hkind
      cases hkind
  close hwhole := by
    rcases hwhole with hupdate | hkind
    · rw [h.mode.1] at hupdate
      cases hupdate
    · rw [h.mode.2] at hkind
      cases hkind
  inside hupdate := by
    rw [h.mode.1] at hupdate
    cases hupdate
  covered hupdate := by
    rw [h.mode.1] at hupdate
    cases hupdate
  fits answers e s' hstop := by
    have hinside : ∀ a b, s.handle.pendingRange = some (a, b) → a ≤ b ∧ b ≤ s.handle.buffer.length := by
      intro a b hab
      rw [pendingRange, h.mode.1] at hab
      cases hab
      exact ⟨h.start, Nat.le_refl _⟩
    obtain ⟨message, rfl⟩ := stops_runtime hinside hstop
    rintro ⟨⟩
  appended _ answers b r := h.flush.2 b r
  appendedClose _ hopen answers b r := h.close.2 hopen b r

end Session.Accounted

end

/-! ## Runs -/

section
variable {observed : Observed} {c : TextCodec} {mode : ManagedIoOpenMode} {p₀ : FilePlace}
  {handle : ManagedIoFileState}
open PathWorld

/-- A handle just opened: it remembers a fingerprint only of a file that it has read whole. -/
def JustOpened (observed : Observed) (mode : ManagedIoOpenMode) (p₀ : FilePlace)
    (handle : ManagedIoFileState) : Prop :=
  ∃ bytes initialized fingerprint, handle = openedState mode bytes initialized fingerprint ∧
    (∀ shown, fingerprint = some shown → ∃ f, p₀.file = some f ∧ f.bytes = bytes ∧ shown = observed f) ∧
    (mode.AppendOnly → bytes = [])

theorem triple_readManagedIoUpdateBuffer :
    Triple (Under True (· = p₀)) (readManagedIoUpdateBuffer observed)
      (fun r => Under True fun p => p = p₀ ∧ ∃ f, p₀.file = some f ∧ f.bytes = r.1 ∧ r.2 = observed f)
      (Failed True (· = p₀)) := by
  refine (PathProg.triple_look (.inr trivial) fun _ h => h).bind fun _ => ?_
  refine (PathProg.triple_look (.inr trivial) fun _ h => h.1).bind fun before => ?_
  refine (PathProg.triple_look (.inr trivial) fun _ h => h.1.1).bind fun buffer => ?_
  refine (PathProg.triple_look (.inr trivial) fun _ h => h.1.1.1).bind fun after => ?_
  split
  · exact .throw fun w hw => ⟨trivial, hw.place.1.1.1.1⟩
  · refine .pure ?_
    rintro w ⟨⟨⟨⟨⟨rfl, -⟩, -⟩, f, hf, hbuffer⟩, f', hf', hafter⟩, hanswers⟩
    rw [hf] at hf'
    cases hf'
    exact ⟨⟨rfl, f, hf, hbuffer.symm, hafter⟩, hanswers⟩

theorem triple_open : Triple (Under True (· = p₀)) (ManagedIoFileState.open observed mode)
    (fun handle => Under True fun p => p = p₀ ∧ JustOpened observed mode p₀ handle)
    (Failed True (· = p₀)) := by
  unfold ManagedIoFileState.open
  split
  next hkind hupdate =>
    refine (triple_failing triple_readManagedIoUpdateBuffer).bind fun r => .pure ?_
    rintro w ⟨⟨hp, f, hf, hbytes, hshown⟩, hanswers⟩
    refine ⟨⟨hp, r.1, true, some r.2, rfl, ?_, ?_⟩, hanswers⟩
    · rintro shown ⟨⟩
      exact ⟨f, hf, hbytes, hshown⟩
    · rintro ⟨hno, -⟩
      rw [hupdate] at hno
      cases hno
  next hkind hupdate =>
    refine (triple_failing (PathProg.triple_look (.inr trivial) fun _ h => h)).bind fun bytes => .pure ?_
    rintro w ⟨⟨hp, -⟩, hanswers⟩
    refine ⟨⟨hp, bytes, true, none, rfl, nofun, ?_⟩, hanswers⟩
    rintro ⟨-, hno⟩
    rw [hkind] at hno
    cases hno
  next hkind hupdate =>
    refine (triple_failing (PathProg.triple_ifPresent triple_readManagedIoUpdateBuffer)).bind fun r => ?_
    cases r with
    | none =>
      refine .pure fun w hw => ⟨⟨hw.2, [], false, none, rfl, nofun, fun _ => rfl⟩, fun _ => trivial⟩
    | some r =>
      refine .pure ?_
      rintro w ⟨⟨hp, f, hf, hbytes, hshown⟩, hanswers⟩
      refine ⟨⟨hp, r.1, true, some r.2, rfl, ?_, ?_⟩, hanswers⟩
      · rintro shown ⟨⟩
        exact ⟨f, hf, hbytes, hshown⟩
      · rintro ⟨hno, -⟩
        rw [hupdate] at hno
        cases hno
  next =>
    exact .pure fun w hw => ⟨⟨hw.place, [], false, none, rfl, nofun, fun _ => rfl⟩, hw.answers⟩
  next =>
    exact .pure fun w hw => ⟨⟨hw.place, [], true, none, rfl, nofun, fun _ => rfl⟩, hw.answers⟩

theorem JustOpened.sound (h : JustOpened observed mode p₀ handle) (hp₀ : p₀.Dated) :
    (Session.opened handle p₀).Sound observed mode := by
  obtain ⟨bytes, initialized, fingerprint, rfl, hshown, -⟩ := h
  refine ⟨rfl, rfl, ⟨Nat.zero_le _, fun a b hab => ?_, fun _ _ _ => .refl, fun _ => rfl⟩, hp₀, ?_⟩
  · unfold pendingRange openedState at hab
    split at hab
    · cases hab
    · cases hab
      exact ⟨Nat.le_refl _, Nat.le_refl _⟩
  · intro shown hsome
    obtain ⟨f, hf, hbytes, hobserved⟩ := hshown shown hsome
    refine ⟨f, hobserved, hbytes, hp₀ f hf, fun f' hf' _ => ?_⟩
    exact some.inj (hf'.symm.trans hf)

theorem JustOpened.accounted_opened (h : JustOpened observed mode p₀ handle) (hmode : mode.AppendOnly) :
    (Session.opened handle p₀).Accounted := by
  obtain ⟨bytes, initialized, fingerprint, rfl, -, hempty⟩ := h
  rw [hempty hmode]
  refine ⟨hmode, rfl, Nat.le_refl _, ?_, ?_, fun i k hk => ?_⟩
  · exact length_map _
  · simp only [Session.opened]
    rw [map_const', reduceOption_replicate_none]
    rfl
  · simp only [Session.opened, getElem?_map] at hk
    obtain ⟨b, -, hb⟩ := map_eq_some_iff.1 hk
    cases hb

/-- A handle that publishes its whole buffer keeps its promises in every run. An append-only handle keeps
them in every run in which no flush fails after writing something and others leave its bytes alone. -/
theorem append_run_faithful (observed : Observed) (c : TextCodec) (htells : TellsChanges observed)
    (file : Option (List UInt8)) (mode : ManagedIoOpenMode) (answers : List (Option PathFault))
    (handle : ManagedIoFileState) (w : PathWorld)
    (hopen : ManagedIoFileState.open observed mode ⟨.start file, answers⟩ = .ok handle w)
    (hmode : mode.PublishesWhole ∨ mode.AppendOnly) (events : List Event)
    (hclean : mode.AppendOnly → (Session.opened handle w.place).CleanRun observed c events) :
    ((Session.opened handle w.place).run observed c events).Faithful observed c := by
  have hjust := Triple.ok triple_open ⟨rfl, fun _ => trivial⟩ hopen
  obtain ⟨hplace, hjust⟩ := hjust.place
  rw [hplace] at hclean ⊢
  rcases hmode with hwhole | happend
  · exact ((hjust.sound FilePlace.dated_start).run hwhole htells events).faithful hwhole htells
  · exact ((hjust.accounted_opened happend).run (hclean happend)).faithful

end

/-! ## A shared file -/

namespace Example

/-- Bytes as they are, in place of a text encoding. -/
def plainCodec : TextCodec := ⟨id, fun text => .ok text.toUTF8.toList⟩

/-- A host whose change time counts the changes. -/
def countingHost : Observed := fun f =>
  { len := f.bytes.length
    modified := some f.generation
    created := none
    platformGeneration := some ⟨0, 0, f.generation, 0⟩ }

def appendMode : ManagedIoOpenMode := ⟨.append, true, false⟩

/-- An append-only handle on a log that others append to as well. -/
def log : Session := .opened (openedState appendMode [] true none) (.start (some [35]))

def sharedLog : List Event :=
  [.write [.string [97, 98]], .flush [], .others (some [.kept 0, .kept 1, .kept 2, .fresh 35]),
    .write [.string [99]], .flush [some ⟨"too many open files", 0⟩]]

theorem faithful_sharedLog :
    (log.run countingHost plainCodec sharedLog).Faithful countingHost plainCodec := by
  refine append_run_faithful countingHost plainCodec ?_ (some [35]) appendMode [] _
    ⟨.start (some [35]), []⟩ rfl (.inr ⟨rfl, rfl⟩) sharedLog fun _ => ?_
  · intro f f' h
    exact some.inj (congrArg ManagedIoBackingFingerprint.modified h)
  · refine ⟨trivial, fun _ => ?_, rfl, trivial, fun _ => ?_, trivial⟩
    · rintro ⟨_, _, ⟨⟩, _⟩
    · rintro ⟨_, _, ⟨⟩, _⟩

/-- The first flush fails after the first of two bytes, and the next one appends both of them. -/
theorem not_faithful_torn : ManagedIoFileState.open countingHost appendMode ⟨.start none, []⟩ =
      .ok (openedState appendMode [] true none) ⟨.start none, []⟩ ∧
    ((Session.opened (openedState appendMode [] true none) (.start none)).run countingHost plainCodec
      [.write [.string [97, 98]], .flush [none, some ⟨"no space left on device", 1⟩],
        .flush []]).place.bytes = some [97, 97, 98] ∧
    ¬ ((Session.opened (openedState appendMode [] true none) (.start none)).run countingHost plainCodec
      [.write [.string [97, 98]], .flush [none, some ⟨"no space left on device", 1⟩]]).Faithful
        countingHost plainCodec := by
  refine ⟨rfl, rfl, fun h => ?_⟩
  have honce := (h.appended ⟨rfl, rfl⟩ [] true _ rfl).origins
  revert honce
  decide

end Example

end LuaSkills.ManagedIo
