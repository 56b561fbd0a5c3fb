import LuaSkills.Embedded.Operation.Contents
import LuaSkills.Embedded.Operation.Steps

/-!
# Runs of a queued operation

The invariants along every interleaving of the owner, the dispatchers, the host and the writer.
-/

namespace LuaSkills.Embedded

open WriterWorld List

namespace Operation
variable {O : Operation} {K : Allowance}
  {w v : OperationWorld} {c : PendingCheckpoint} {σ : Slot} {s : OperationSnapshot}

structure Shown (O : Operation) (w : OperationWorld) : Prop where
  current : w.snapshot = (w.published.getLast?.map Prod.snd).getD O.initial
  acknowledged : ∀ x ∈ w.published, ∃ m, (m, x.2) ∈ w.acknowledged.take x.1
  terminal : w.published.countP (fun x => x.2.phase.isTerminal) =
    if w.snapshot.phase.isTerminal then 1 else 0

structure Inv (O : Operation) (w : OperationWorld) : Prop where
  protocol : Protocol O w
  contents : Contents O w
  shown : Shown O w

/-! ## Public snapshots -/

/-- A terminal operation retains nothing. -/
theorem Contents.over (P : Protocol O w) (C : Contents O w) (h : w.snapshot.phase.isTerminal) :
    w.pendingCompletion = none ∧ ∀ τ, w.slot τ = none := by
  have hp : w.pendingCompletion = none := by
    cases hp : w.pendingCompletion with
    | none => rfl
    | some s =>
      rw [(C.pending s hp).cleaning] at h
      cases h
  refine ⟨hp, fun τ => ?_⟩
  cases τ with
  | completion => exact P.completion_none hp
  | transition =>
    cases ht : w.transition with
    | none => exact ht
    | some c => exact nomatch (C.transition c ht).live.symm.trans h

theorem Shown.frame (S : Shown O w) (hs : v.snapshot = w.snapshot) (hp : v.published = w.published)
    (ha : w.acknowledged <+: v.acknowledged) : Shown O v where
  current := by rw [hs, hp, S.current]
  acknowledged x hx := by
    obtain ⟨m, hm⟩ := S.acknowledged x (hp ▸ hx)
    exact ⟨m, (ha.take x.1).subset hm⟩
  terminal := by rw [hs, hp, S.terminal]

/-- A store of the last acknowledged snapshot to a public snapshot that is not terminal. -/
theorem Shown.publish (S : Shown O w) (hlive : w.snapshot.phase.isTerminal = false) {m : ℕ}
    (hl : (m, s) ∈ w.acknowledged) (hs : v.snapshot = s)
    (hp : v.published = w.published ++ [(w.acknowledged.length, s)])
    (ha : v.acknowledged = w.acknowledged) : Shown O v where
  current := by simp [hs, hp]
  acknowledged x hx := by
    rw [hp, mem_append] at hx
    rw [ha]
    rcases hx with hx | hx
    · exact S.acknowledged x hx
    · cases mem_singleton.1 hx
      exact ⟨m, by rwa [take_length]⟩
  terminal := by
    rw [hp, countP_append, S.terminal, hlive, hs]
    simp [countP_singleton]

theorem Shown.move (P : Protocol O w) (C : Contents O w) (S : Shown O w) (m : Move O K w v) :
    Shown O v := by
  cases m with
  | progress h hp =>
    refine S.frame hp.beside.snapshot hp.beside.published ?_
    cases hp with
    | acknowledge => exact prefix_append _ _
    | _ => exact prefix_rfl
  | @publishPhase c hc hack he =>
    obtain ⟨m, hl⟩ := P.last_acknowledged (σ := .transition) hc hack
    exact S.publish (C.transition c hc).live (mem_of_getLast? hl) rfl rfl rfl
  | @publishCompletion c snapshot hc hack hph hp =>
    obtain ⟨m, hl⟩ := P.last_acknowledged (σ := .completion) hc hack
    cases hp.symm.trans (P.completion c hc)
    refine S.publish ?_ (mem_of_getLast? hl) rfl rfl rfl
    rw [hph]
    rfl
  | _ => exact S.frame rfl rfl prefix_rfl

theorem Contents.final (P : Protocol O w) (C : Contents O w) (h : w.snapshot.phase.isTerminal)
    (m : Move O K w v) : v.snapshot = w.snapshot ∧ v.published = w.published := by
  obtain ⟨hp, hfree⟩ := C.over P h
  cases m with
  | progress _ hp => exact ⟨hp.beside.snapshot, hp.beside.published⟩
  | publishPhase hc => exact absurd ((hfree .transition).symm.trans hc) nofun
  | publishCompletion hc => exact absurd ((hfree .completion).symm.trans hc) nofun
  | _ => exact ⟨rfl, rfl⟩

/-! ## Runs -/

theorem Inv.moves (I : Inv O w) (m : Moves O K w v) : Inv O v := by
  induction m with
  | refl => exact I
  | tail _ m ih =>
    exact ⟨ih.protocol.move m, ih.contents.move ih.protocol m, ih.shown.move ih.protocol ih.contents m⟩

theorem Inv.final (I : Inv O w) (h : w.snapshot.phase.isTerminal) (m : Moves O K w v) :
    v.snapshot = w.snapshot ∧ v.published = w.published := by
  induction m with
  | refl => exact ⟨rfl, rfl⟩
  | tail ms m ih =>
    have J := I.moves ms
    obtain ⟨hs, hp⟩ := J.contents.final J.protocol (ih.1 ▸ h) m
    exact ⟨hs.trans ih.1, hp.trans ih.2⟩

theorem Inv.closed (I : Inv O w) (h : w.pendingCompletion.isSome) :
    ¬ EffectLedger.unfinished w.ledger := by
  obtain ⟨s, hs⟩ := Option.isSome_iff_exists.1 h
  exact (I.contents.pending s hs).closed.2

/-- Every move is allowed as far as the other users of the writer go. -/
def Allowance.among (writer : WriterCall → Prop) : Allowance := ⟨fun _ _ => True, True, writer⟩

def Allowance.all : Allowance := .among fun _ => True

/-- Retries are not requested. -/
def Allowance.observing : Allowance := ⟨fun _ _ => True, False, fun _ => True⟩

section
variable (hq : O.backend = .queued) (I : Inv O w)
include hq I

theorem Inv.run_moves_among (calls : List OperationCall) (hw : ∀ c, .writer c ∈ calls → writer c) :
    Moves O (.among writer) w (O.runFrom w calls) := by
  induction calls generalizing w with
  | nil => exact .refl
  | cons call calls ih =>
    have m : Moves O (.among writer) w (O.perform w call) :=
      .perform hq I.protocol I.closed call (fun _ _ _ _ _ => trivial) (fun _ => trivial) fun c hc =>
        hw c (hc ▸ mem_cons_self)
    exact m.trans (ih (I.moves m) fun c hc => hw c (mem_cons_of_mem _ hc))

theorem Inv.run_moves (calls : List OperationCall) : Moves O .all w (O.runFrom w calls) :=
  I.run_moves_among hq calls fun _ _ => trivial

theorem Inv.runFrom (calls : List OperationCall) : Inv O (O.runFrom w calls) :=
  I.moves (I.run_moves hq calls)

end

theorem Fits.initial (O : Operation) (l : LedgerState) : Fits O l O.initial := by
  refine ⟨rfl, rfl, validateCallers_ok rfl rfl ?_ rfl, ?_, fun _ => ⟨rfl, rfl⟩⟩
  · intro r hr
    cases hr
  · rintro f ⟨⟩

theorem Protocol.new (O : Operation) {writer : WriterWorld} (W : ∃ n p, writer.Inv O.center n p)
    (hc : writer.charges = []) : Protocol O (O.new writer) where
  writer := W
  ordered := rfl
  exclusive _ := rfl
  gate _ := rfl
  completion c h := by cases h
  held σ c h := by cases σ <;> cases h
  flight id x hx := by
    have hx : writer.charges[id]? = some x := hx
    rw [hc] at hx
    cases hx
  counted := ⟨fun k => Nat.zero_le _, fun s h => by cases h⟩
  revised := ⟨rfl, rfl, fun m s h => by cases h⟩

theorem Contents.new (O : Operation) (writer : WriterWorld) : Contents O (O.new writer) where
  owned r h := by cases h
  snapshot := .initial O _
  transition c h := by cases h
  pending s h := by cases h
  ownership s h _ hf := by
    rcases h with rfl | ⟨c, hc, -⟩
    · cases hf
    · cases hc
  acknowledged x h := by cases h
  last m s h := by cases h
  submissions x h := by cases h

theorem Inv.new (O : Operation) {writer : WriterWorld} (W : ∃ n p, writer.Inv O.center n p)
    (hc : writer.charges = []) : Inv O (O.new writer) :=
  ⟨.new O W hc, .new O writer, rfl, (fun x h => by cases h), rfl⟩

theorem Inv.start (O : Operation) (earlier : List JournalCall) :
    Inv O (O.new (WriterCenter.new (O.center.journal.run earlier))) :=
  .new O ⟨0, .fetch, .new O.center _⟩ rfl

theorem Inv.run (hq : O.backend = .queued) (earlier : List JournalCall) (calls : List OperationCall) :
    Inv O (O.run earlier calls) := (Inv.start O earlier).runFrom hq calls

/-- Durable before public. -/
theorem run_published (O : Operation) (hq : O.backend = .queued) (earlier : List JournalCall)
    (calls : List OperationCall) :
    let w := O.run earlier calls
    w.snapshot = (w.published.getLast?.map Prod.snd).getD O.initial ∧
    (∀ n s, (n, s) ∈ w.published → ∃ m, (m, s) ∈ w.acknowledged.take n ∧
      ∃ x ∈ w.writer.executed, x.result = .ok m ∧ ∃ y ∈ w.writer.receipts[x.attempt]?,
        y.request.runtimeId = O.runtimeId ∧ y.request.snapshot = s) ∧
    (w.snapshot.phase.isTerminal → ∀ more,
      (O.runFrom w more).snapshot = w.snapshot ∧ (O.runFrom w more).published = w.published) ∧
    w.published.countP (fun x => x.2.phase.isTerminal) ≤ 1 := by
  intro w
  have I : Inv O w := .run hq earlier calls
  refine ⟨I.shown.current, fun n s h => ?_, fun ht more => ?_, ?_⟩
  · obtain ⟨m, hm⟩ := I.shown.acknowledged _ h
    obtain ⟨x, hx, hr, y, hy, hid, hs⟩ := I.protocol.revised.written m s (mem_of_mem_take hm)
    obtain ⟨receipt, hr', rfl⟩ : ∃ receipt, w.writer.receipts[x.attempt]? = some receipt ∧
        (receipt.request, receipt.bytes) = y := by
      simpa [WriterWorld.charges] using hy
    exact ⟨m, hm, x, hx, hr, receipt, hr', hid, hs⟩
  · exact I.final ht (I.run_moves hq more)
  · rw [I.shown.terminal]
    split
    · exact Nat.le_refl _
    · exact Nat.zero_le _

/-! ## A plain operation -/

/-- The length of a queued request whose identities need no escapes, around its snapshot:
`{"reconcile":true,"runtime_id":"rt-1","expected_revision":null,"snapshot":...}`. -/
def requestLength (serde : Serde) (request : WriteRequest) : ℕ :=
  61 + (OperationJournal.boolDocument request.reconcile).length +
    (request.runtimeId.utf8ByteSize + 2) +
    (request.expectedRevision.elim 4 fun revision => revision.repr.length) +
    serde.snapshotSize request.snapshot

noncomputable def plainWriter : WriterCenter where
  journal := OperationJournal.plainJournal
  config := ⟨4, 4096⟩
  valid := rfl
  requestSize := requestLength OperationJournal.plainTable.serde

noncomputable def plainOperation (backend : HistoryBackend) : Operation where
  center := plainWriter
  backend := backend
  runtimeId := "rt-1"
  id := "op-1"
  context := .unbound
  valid := rfl
  maxValueBytes := 256
  maxEffectRecords := 4
  maxEffectBytes := 1024
  contextBytes := 0

/-- One turn of the storage thread: it claims, writes, publishes and releases one attempt. -/
def turn (faults : TransactionFaults) : List OperationCall :=
  replicate 8 (.writer (.thread 0 .none faults))

/-- The owner enters cleanup and waits until that is durable. -/
def cleaningCalls : List OperationCall :=
  .advance .cleaning ⟨false, false⟩ .none :: turn .none ++ [.resume ⟨false, false⟩]

theorem run_published_cleaning :
    let w := (plainOperation .queued).run [] cleaningCalls
    w.published = [(1, OperationJournal.cleaningSnapshot)] ∧
    ∃ m, (m, OperationJournal.cleaningSnapshot) ∈ w.acknowledged.take 1 ∧
      ∃ x ∈ w.writer.executed, x.result = .ok m := by
  intro w
  have hw : w.published = [(1, OperationJournal.cleaningSnapshot)] := by decide +kernel
  refine ⟨hw, ?_⟩
  obtain ⟨-, h, -, -⟩ := run_published (plainOperation .queued) rfl [] cleaningCalls
  obtain ⟨m, hm, x, hx, hr, -⟩ := h 1 OperationJournal.cleaningSnapshot
    (hw ▸ mem_singleton_self _)
  exact ⟨m, hm, x, hx, hr⟩

end Operation

end LuaSkills.Embedded
