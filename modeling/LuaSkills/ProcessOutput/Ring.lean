import LuaSkills.ProcessOutput.Session

/-!
# Accounts of an output ring

An append keeps the newest bytes and counts those it drops. So a stream is, in this order, the drained
pieces with what was dropped before each of them, what was dropped since, and the bytes in the ring.
-/

namespace LuaSkills.ProcessOutput

open List

namespace ManagedProcessOutputBuffer

/-- An append puts the bytes behind those that are there, and cuts off the oldest ones. -/
theorem appendBounded_cut (buffer : ManagedProcessOutputBuffer) (bytes : List UInt8) (limit : ℕ) :
    ∃ cut dropped, cut ≤ (buffer.bytes ++ bytes).length ∧
      (buffer.bytes ++ bytes).length - cut ≤ max limit 1 ∧
      (dropped = saturate (buffer.droppedBytes + cut) ∨ cut = 0 ∧ dropped = buffer.droppedBytes) ∧
      buffer.appendBounded bytes limit =
        ⟨(buffer.bytes ++ bytes).drop cut, saturate (buffer.totalBytes + bytes.length), dropped⟩ := by
  rw [length_append]
  unfold appendBounded
  dsimp only
  split
  · refine ⟨buffer.bytes.length + (bytes.length - max limit 1), _, by omega, by omega, .inl rfl, ?_⟩
    rw [drop_length_add_append]
  · next hshort =>
    split
    · refine ⟨buffer.bytes.length + bytes.length - max limit 1, _, by omega, by omega, .inl rfl, ?_⟩
      rw [drop_append_of_le_length (by omega)]
    · exact ⟨0, _, Nat.zero_le _, by omega, .inr ⟨rfl, rfl⟩, rfl⟩

end ManagedProcessOutputBuffer

/-! ## Streams -/

structure Segment where
  gap : List UInt8
  piece : List UInt8

def Segment.bytes (segment : Segment) : List UInt8 := segment.gap ++ segment.piece

/-- The drained pieces of a stream in order, the gaps that the counter accounts for, and what is in the
ring: the newest bytes of what has not been drained. -/
structure Layout (stream : List UInt8) (drained : List (List UInt8)) (buffer : ManagedProcessOutputBuffer)
    (segments : List Segment) (gap : List UInt8) : Prop where
  stream : stream = segments.flatMap Segment.bytes ++ (gap ++ buffer.bytes)
  drained : drained = segments.map Segment.piece
  dropped : buffer.droppedBytes = (segments.map fun s => s.gap.length).sum + gap.length

variable {stream bytes : List UInt8} {drained : List (List UInt8)} {buffer : ManagedProcessOutputBuffer}
  {segments : List Segment} {gap : List UInt8}

theorem Layout.length (h : Layout stream drained buffer segments gap) :
    stream.length = buffer.droppedBytes + drained.flatten.length + buffer.bytes.length := by
  have hsegments : ∀ segments : List Segment, (segments.flatMap Segment.bytes).length =
      (segments.map fun s => s.gap.length).sum + (segments.map Segment.piece).flatten.length := by
    intro segments
    induction segments with
    | nil => rfl
    | cons s segments ih =>
      rw [flatMap_cons, length_append, ih, Segment.bytes, length_append, map_cons,
        sum_cons, map_cons, flatten_cons, length_append]
      omega
  have hlength := congrArg List.length h.stream
  rw [length_append, length_append, hsegments, ← h.drained] at hlength
  have hdropped := h.dropped
  omega

theorem Layout.append (h : Layout stream drained buffer segments gap) (limit : ℕ)
    (hfits : (stream ++ bytes).length < 2 ^ 64) :
    ∃ gap', Layout (stream ++ bytes) drained (buffer.appendBounded bytes limit) segments gap' := by
  obtain ⟨cut, dropped, hcut, -, hdropped, happend⟩ := buffer.appendBounded_cut bytes limit
  have hlength := h.length
  rw [length_append] at hfits hcut
  rw [happend]
  refine ⟨gap ++ (buffer.bytes ++ bytes).take cut, ?_, h.drained, ?_⟩
  · rw [h.stream, append_assoc _ ((buffer.bytes ++ bytes).take cut), take_append_drop]
    simp only [append_assoc]
  · have hexact : dropped = buffer.droppedBytes + cut := by
      unfold saturate at hdropped
      omega
    change dropped = _
    rw [hexact, h.dropped, length_append, length_take, length_append, Nat.min_eq_left hcut,
      Nat.add_assoc]

theorem Layout.drain (h : Layout stream drained buffer segments gap) (maxBytes : ℕ) :
    Layout stream (drained ++ [(buffer.drain maxBytes).1]) (buffer.drain maxBytes).2
      (segments ++ [⟨gap, (buffer.drain maxBytes).1⟩]) [] where
  stream := by
    have hbuffer : (buffer.drain maxBytes).1 ++ (buffer.drain maxBytes).2.bytes = buffer.bytes :=
      take_append_drop _ _
    rw [h.stream, flatMap_append, flatMap_singleton, Segment.bytes, ← hbuffer]
    simp only [append_assoc, nil_append]
  drained := by rw [h.drained, map_append, map_singleton]
  dropped := by
    rw [map_append, sum_append, map_singleton, sum_singleton]
    exact h.dropped

/-! ## Runs -/

inductive RingOp where
  | append (bytes : List UInt8) (limitBytes : ℕ)
  | drain (maxBytes : ℕ)

structure Ring where
  buffer : ManagedProcessOutputBuffer := {}
  drained : List (List UInt8) := []

def Ring.step (ring : Ring) : RingOp → Ring
  | .append bytes limitBytes => { ring with buffer := ring.buffer.appendBounded bytes limitBytes }
  | .drain maxBytes =>
    let (piece, buffer) := ring.buffer.drain maxBytes
    ⟨buffer, ring.drained ++ [piece]⟩

def Ring.run (ring : Ring) (ops : List RingOp) : Ring := ops.foldl step ring

/-- What the child has written. -/
def RingOp.written : RingOp → List UInt8
  | .append bytes _ => bytes
  | .drain _ => []

/-- The bound on the bytes in the ring after the operation. -/
def RingOp.bound (bound : ℕ) : RingOp → ℕ
  | .append _ limitBytes => max limitBytes 1
  | .drain _ => bound

structure Accounted (ring : Ring) (stream : List UInt8) (bound : ℕ) : Prop where
  total : ring.buffer.totalBytes = stream.length
  bounded : ring.buffer.bytes.length ≤ bound
  layout : ∃ segments gap, Layout stream ring.drained ring.buffer segments gap

variable {ring : Ring} {bound : ℕ}

theorem Accounted.step (h : Accounted ring stream bound) {op : RingOp}
    (hfits : (stream ++ op.written).length < 2 ^ 64) :
    Accounted (ring.step op) (stream ++ op.written) (op.bound bound) := by
  obtain ⟨segments, gap, hlayout⟩ := h.layout
  cases op with
  | append bytes limit =>
    obtain ⟨gap', hlayout'⟩ := hlayout.append limit hfits
    refine ⟨?_, ?_, segments, gap', hlayout'⟩
    · obtain ⟨cut, dropped, -, -, -, happend⟩ := ring.buffer.appendBounded_cut bytes limit
      rw [Ring.step, happend, h.total, ← length_append]
      exact Nat.min_eq_left (Nat.le_pred_of_lt hfits)
    · obtain ⟨cut, dropped, -, hbounded, -, happend⟩ := ring.buffer.appendBounded_cut bytes limit
      rw [Ring.step, happend, length_drop]
      exact hbounded
  | drain maxBytes =>
    rw [RingOp.written, append_nil]
    refine ⟨h.total, ?_, _, _, hlayout.drain maxBytes⟩
    exact (drop_suffix _ _).length_le.trans h.bounded

theorem Accounted.run (h : Accounted ring stream bound) (ops : List RingOp)
    (hfits : (stream ++ ops.flatMap RingOp.written).length < 2 ^ 64) :
    Accounted (ring.run ops) (stream ++ ops.flatMap RingOp.written) (ops.foldl RingOp.bound bound) := by
  induction ops generalizing ring stream bound with
  | nil =>
    rw [flatMap_nil, append_nil]
    exact h
  | cons op ops ih =>
    rw [flatMap_cons, ← append_assoc] at hfits ⊢
    refine ih (h.step ?_) hfits
    rw [length_append] at hfits
    omega

/-- In every run that does not saturate the counter of the stream, the counters add up, the ring holds
no more than the limit of the last append, and the stream consists of the drained pieces, the dropped
gaps and the newest bytes. -/
theorem ring_accounts (ops : List RingOp) (hfits : (ops.flatMap RingOp.written).length < 2 ^ 64) :
    let ring := Ring.run {} ops
    ring.buffer.totalBytes = (ops.flatMap RingOp.written).length ∧
    ring.buffer.totalBytes =
      ring.buffer.droppedBytes + ring.drained.flatten.length + ring.buffer.bytes.length ∧
    ring.buffer.bytes.length ≤ ops.foldl RingOp.bound 0 ∧
    ∃ segments gap, Layout (ops.flatMap RingOp.written) ring.drained ring.buffer segments gap := by
  have hstart : Accounted {} [] 0 := ⟨rfl, Nat.le_refl 0, [], [], rfl, rfl, rfl⟩
  have hrun := hstart.run ops hfits
  obtain ⟨segments, gap, hlayout⟩ := hrun.layout
  exact ⟨hrun.total, hrun.total.trans hlayout.length, hrun.bounded, segments, gap, hlayout⟩

namespace Example

/-- A chunk that overflows a ring of four bytes that was partly drained, and one that is too large. -/
def ringOps : List RingOp :=
  [.append [1, 2, 3] 4, .drain 1, .append [4, 5, 6] 4, .drain 2, .append [7, 8, 9, 10, 11] 4, .drain 9]

theorem ring_accounts_ringOps :
    let ring := Ring.run {} ringOps
    ring.buffer.totalBytes = (ringOps.flatMap RingOp.written).length ∧
    ring.buffer.totalBytes =
      ring.buffer.droppedBytes + ring.drained.flatten.length + ring.buffer.bytes.length ∧
    ring.buffer.bytes.length ≤ ringOps.foldl RingOp.bound 0 ∧
    ∃ segments gap, Layout (ringOps.flatMap RingOp.written) ring.drained ring.buffer segments gap :=
  ring_accounts ringOps (by decide)

end Example

end LuaSkills.ProcessOutput
