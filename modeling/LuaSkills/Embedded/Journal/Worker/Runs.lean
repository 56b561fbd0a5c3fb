import LuaSkills.Embedded.Journal.Worker.Invariant

/-!
# Runs of the journal worker

Every interleaving of clients, the host and storage threads keeps the invariant. An attempt without an
outcome is at most `countdown` steps of the current thread away from one, whatever else happens.
-/

namespace LuaSkills.Embedded

open List Option WriterCenter

variable {id : ℕ}

namespace WriterWorld
variable {C : WriterCenter} {n : ℕ} {w w' : WriterWorld} {p : ThreadPoint} {fault : ThreadFault}
  {faults : TransactionFaults}

/-! ## What no call undoes -/

/-- Published outcomes stay, and a closed writer stays closed and admits nothing. -/
structure Grows (w w' : WriterWorld) : Prop where
  completed : w.completed <+: w'.completed
  executed : w.executed <+: w'.executed
  charges : w.charges <+: w'.charges
  closed : w.state.closeRequested = true →
    w'.state.closeRequested = true ∧ w'.receipts.length = w.receipts.length

theorem length_charges (w : WriterWorld) : w.charges.length = w.receipts.length := length_map _

theorem Grows.admitted (h : Grows w w') : w.receipts.length ≤ w'.receipts.length := by
  rw [← length_charges, ← length_charges]
  exact h.charges.length_le

theorem getElem?_prefix_some {α : Type} {l l' : List α} {i : ℕ} {x : α} (h : l <+: l')
    (hx : l[i]? = some x) : l'[i]? = some x := by
  obtain ⟨ext, rfl⟩ := h
  rw [List.getElem?_append_left (List.getElem?_eq_some_iff.1 hx).1, hx]

theorem Grows.charge {x : WriteRequest × ℕ} (h : Grows w w')
    (hx : w.charges[id]? = some x) : w'.charges[id]? = some x := getElem?_prefix_some h.charges hx

theorem Grows.of_eq (hc : w'.completed = w.completed) (he : w'.executed = w.executed)
    (hr : w'.charges = w.charges)
    (hs : w.state.closeRequested = true → w'.state.closeRequested = true) : Grows w w' where
  completed := hc ▸ prefix_rfl
  executed := he ▸ prefix_rfl
  charges := hr ▸ prefix_rfl
  closed h := ⟨hs h, by rw [← length_charges, hr, length_charges]⟩

theorem Grows.refl (w : WriterWorld) : Grows w w := .of_eq rfl rfl rfl fun h => h

theorem Grows.trans (h : Grows w₁ w₂) (h' : Grows w₂ w₃) : Grows w₁ w₃ where
  completed := h.completed.trans h'.completed
  executed := h.executed.trans h'.executed
  charges := h.charges.trans h'.charges
  closed hc := by
    obtain ⟨hc₂, hl₂⟩ := h.closed hc
    obtain ⟨hc₃, hl₃⟩ := h'.closed hc₂
    exact ⟨hc₃, hl₃.trans hl₂⟩

theorem Grows.complete (w : WriterWorld) (id : ℕ) (result : EmbeddedResult ℕ) :
    Grows w (w.complete id result) where
  completed := by
    simp only [WriterWorld.complete]
    split
    · exact prefix_rfl
    · exact prefix_append _ _
  executed := prefix_rfl
  charges := charges_complete w id result ▸ prefix_rfl
  closed h := ⟨h, by simp [WriterWorld.complete]⟩

theorem Turn.grows (T : Turn C n fault faults w p w' p') : Grows w w' := by
  have hr := T.charges
  cases T with
  | publish | complete => exact .complete w _ _
  | execute =>
    exact ⟨prefix_rfl, prefix_append _ _, prefix_rfl, fun h => ⟨h, rfl⟩⟩
  | _ => exact .of_eq rfl rfl hr fun h => h

/-- The call is a step of thread `n`. -/
def steps (n : ℕ) : WriterCall → Bool
  | .thread i _ _ => i = n
  | _ => false

/-- What a call that is not a step of the current thread does: new attempts join the queue. -/
structure Quiet (w w' : WriterWorld) : Prop extends Grows w w' where
  queued : w.state.queued <+: w'.state.queued
  active : w'.state.active = w.state.active
  logs : w'.executed = w.executed ∧ w'.completed = w.completed

theorem Quiet.refl (w : WriterWorld) : Quiet w w := ⟨.refl w, prefix_rfl, rfl, rfl, rfl⟩

theorem Quiet.joined (w : WriterWorld) : Quiet w { w with worker := ⟨none, false⟩ } :=
  ⟨.of_eq rfl rfl rfl fun h => h, prefix_rfl, rfl, rfl, rfl⟩

theorem Quiet.dropOwner (w : WriterWorld) (id : ℕ) : Quiet w (w.dropOwner id) := by
  have same : ∀ w', w.releaseLast id = some w' → Quiet w w' := by
    intro w' h
    unfold releaseLast at h
    split at h
    · cases h
      exact .refl w
    · obtain ⟨state, hs, rfl⟩ := map_eq_some_iff.1 h
      simp only [WriterState.release, bind_eq_bind, bind_eq_some_iff,
        checkedSub_eq_some, Option.pure_def, Option.some.injEq] at hs
      obtain ⟨_, _, _, _, rfl⟩ := hs
      exact ⟨.of_eq rfl rfl rfl fun h => h, prefix_rfl, rfl, rfl, rfl⟩
  unfold WriterWorld.dropOwner
  cases h : w.releaseLast id with
  | none => exact ⟨.of_eq rfl rfl rfl fun h => h, prefix_rfl, rfl, rfl, rfl⟩
  | some w' => exact same w' h

/-! ## Receipts -/

theorem Fits.of_quota (hf : p.Fits s) : p.Fits { s with pendingWrites, pendingBytes } := by
  cases p with
  | dropping held resume => cases resume <;> exact hf
  | _ => exact hf

theorem Inv.cloneReceipt (H : w.Inv C n p) (hid : id ∈ w.clients) :
    Inv C { w with clients := id ::ₘ w.clients } n p := by
  have hmem : id ∈ w.ownersAt p := by simp [ownersAt, hid]
  refine H.frame ⟨rfl, rfl, rfl, rfl, rfl, rfl⟩ rfl H.worker H.fits ?_
  exact (H.charged.cons hmem).congr rfl rfl rfl rfl (by simp [ownersAt])

theorem Inv.dropReceipt (H : w.Inv C n p) (hid : id ∈ w.clients) :
    Inv C ({ w with clients := w.clients.erase id }.dropOwner id) n p := by
  have ho : ({ w with clients := w.clients.erase id } : WriterWorld).owners =
    ownersAt { w with clients := w.clients.erase id } p := owners_eq H.threads
  have hc : Charged C { w with clients := w.clients.erase id }
      (id ::ₘ ({ w with clients := w.clients.erase id } : WriterWorld).owners) := by
    refine H.charged.congr rfl rfl rfl rfl ?_
    rw [ho]
    simp only [ownersAt, ← Multiset.cons_add, Multiset.cons_erase hid]
  obtain ⟨pendingWrites, pendingBytes, hrel, hch⟩ := hc.releaseLast
  rw [dropOwner, hrel, getD_some]
  exact H.frame ⟨rfl, rfl, rfl, rfl, rfl, rfl⟩ rfl H.worker (Fits.of_quota H.fits) (ho ▸ hch)

theorem Inv.requestClose (H : w.Inv C n p) : (requestClose w).Inv C n p := by
  refine H.frame ⟨rfl, rfl, rfl, rfl, rfl, rfl⟩ rfl H.worker ?_ (H.charged.congr rfl rfl rfl rfl rfl)
  have hf := H.fits
  cases p with
  | exited panicked => exact ⟨hf.1, hf.2.1, hf.2.2.1, rfl⟩
  | dropping held resume => cases resume <;> exact hf
  | _ => exact hf

/-! ## Admission -/

/-- The world with one more admitted attempt, owned by its client and by the queue. -/
def admitted (w : WriterWorld) (request : WriteRequest) (bytes : ℕ) : WriterWorld :=
  { w with
    receipts := w.receipts ++ [⟨request, bytes, ⟨.queued, none, none⟩⟩]
    clients := w.receipts.length ::ₘ w.clients
    state := { w.state with
      pendingWrites := w.state.pendingWrites + 1
      pendingBytes := w.state.pendingBytes + bytes
      queued := w.state.queued ++ [w.receipts.length] } }

variable {request : WriteRequest} {bytes : ℕ}

theorem ownersAt_admitted : (w.admitted request bytes).ownersAt p =
    w.receipts.length ::ₘ w.receipts.length ::ₘ w.ownersAt p := by
  have hq : ((w.state.queued ++ [w.receipts.length] : List ℕ) : Multiset ℕ) =
      w.receipts.length ::ₘ (w.state.queued : Multiset ℕ) :=
    Multiset.coe_eq_coe.2 (perm_append_singleton _ _)
  simp only [ownersAt, admitted, hq, Multiset.cons_add, Multiset.add_cons]

theorem Charged.admitted (H : w.Charged C (w.ownersAt p))
    (hw : w.state.pendingWrites < C.config.maxPendingWrites)
    (hb : bytes ≤ C.config.maxPendingBytes - w.state.pendingBytes) :
    (w.admitted request bytes).Charged C ((w.admitted request bytes).ownersAt p) := by
  have hnew : w.receipts.length ∉ w.ownersAt p := fun h => Nat.lt_irrefl _ (H.known _ h)
  have hbl := H.bytes_le
  have hbytes : ∀ id ∈ w.ownersAt p, (w.admitted request bytes).bytes id = w.bytes id := by
    intro id hid
    rw [WriterWorld.bytes, WriterWorld.bytes, WriterWorld.admitted,
      getElem?_append_left (H.known id hid)]
  have hself : (w.admitted request bytes).bytes w.receipts.length = bytes := by
    simp [WriterWorld.bytes, WriterWorld.admitted]
  rw [ownersAt_admitted]
  refine Charged.cons ⟨?_, ?_, ?_, ?_, ?_, H.underflow⟩ (Multiset.mem_cons_self _ _)
  · intro id hid
    rw [WriterWorld.admitted, length_append, length_singleton]
    rcases Multiset.mem_cons.1 hid with rfl | hid
    · exact Nat.lt_succ_self _
    · exact Nat.lt_succ_of_lt (H.known id hid)
  · rw [Multiset.charge_cons_of_notMem hnew, ← H.writes, Nat.add_comm]
    rfl
  · rw [Multiset.charge_cons_of_notMem hnew, hself, Multiset.charge_congr hbytes, ← H.bytes,
      Nat.add_comm]
    rfl
  · exact hw
  · simp only [WriterWorld.admitted]
    omega

theorem charges_admitted :
    (w.admitted request bytes).charges = w.charges ++ [(request, bytes)] := by
  simp [charges, WriterWorld.admitted]

theorem Sized.admitted (H : w.Sized C) :
    (w.admitted request (C.requestSize request)).Sized C := by
  intro x hx
  rw [charges_admitted, mem_append] at hx
  rcases hx with hx | hx
  · exact H x hx
  · cases mem_singleton.1 hx
    rfl

theorem Answered.admitted (H : w.Answered) : (w.admitted request bytes).Answered := by
  intro x hx revision hr
  obtain ⟨c, hc, hrev⟩ := H x hx revision hr
  refine ⟨c, ?_, hrev⟩
  rw [charges_admitted]
  exact getElem?_prefix_some (prefix_append _ _) hc

theorem Ordered.admitted (H : w.Ordered n p) : (w.admitted request bytes).Ordered n p := by
  obtain ⟨sorted, bound, sublist, unexecuted, written⟩ := H
  have hq : (w.admitted request bytes).started.map Prod.snd ++
      (w.admitted request bytes).state.queued =
        (w.started.map Prod.snd ++ w.state.queued) ++ [w.receipts.length] := by
    simp [WriterWorld.admitted]
  refine ⟨?_, ?_, sublist, unexecuted, written⟩
  · rw [hq, pairwise_append]
    refine ⟨sorted, pairwise_singleton _ _, fun a ha b hb => ?_⟩
    rw [mem_singleton.1 hb]
    exact bound a ha
  · intro id hid
    rw [hq] at hid
    rw [WriterWorld.admitted, length_append, length_singleton]
    rcases mem_append.1 hid with hid | hid
    · exact Nat.lt_succ_of_lt (bound id hid)
    · rw [mem_singleton.1 hid]
      exact Nat.lt_succ_self _

theorem Outcomes.lt (H : w.Outcomes) (h : w.Completed id) : id < w.receipts.length := by
  obtain ⟨x, hx, rfl⟩ := mem_map.1 h
  obtain ⟨receipt, hr, _⟩ := H.published x hx
  exact (List.getElem?_eq_some_iff.1 hr).1

theorem Outcomes.admitted (H : w.Outcomes) : (w.admitted request bytes).Outcomes := by
  refine ⟨H.nodup, fun x hx => ?_, fun id receipt hr hc => ?_, H.source⟩
  · obtain ⟨receipt, hr, hs⟩ := H.published x hx
    refine ⟨receipt, ?_, hs⟩
    rw [WriterWorld.admitted, getElem?_append_left (H.lt (mem_map_of_mem hx)), hr]
  · rw [WriterWorld.admitted, getElem?_append] at hr
    split at hr
    · exact H.unpublished id receipt hr hc
    · obtain ⟨_, hr⟩ := List.getElem?_eq_some_iff.1 hr
      rw [getElem_singleton] at hr
      subst hr
      exact ⟨by simp, rfl, rfl⟩

theorem Owed.admitted (ho : w.Outcomes) (H : w.Owed p) : (w.admitted request bytes).Owed p := by
  obtain ⟨owed, fresh, unpublished, published⟩ := H
  refine ⟨fun id hid hc => ?_, fun id hid => ?_, unpublished, published⟩
  · rw [WriterWorld.admitted, length_append, length_singleton] at hid
    simp only [WriterWorld.admitted, ← append_assoc]
    rcases Nat.lt_succ_iff_lt_or_eq.1 hid with hid | rfl
    · exact mem_append_left _ (owed id hid hc)
    · exact mem_append_right _ (mem_singleton_self _)
  · rcases mem_append.1 hid with hid | hid
    · exact fresh id hid
    · rw [mem_singleton.1 hid]
      exact fun hc => Nat.lt_irrefl _ (ho.lt hc)
/-- The checks of a submission promise an open writer with room for the charge. -/
theorem submitRequest_cases (w : WriterWorld) (request : WriteRequest) (lockPoisoned : Bool) :
    (C.submitRequest w request lockPoisoned).1 = w ∨
      w.state.admissionClosed = false ∧ w.state.pendingWrites < C.config.maxPendingWrites ∧
        C.requestSize request ≤ C.config.maxPendingBytes - w.state.pendingBytes ∧
        (C.submitRequest w request lockPoisoned).1 = w.admitted request (C.requestSize request) := by
  unfold submitRequest
  dsimp only
  split
  · exact .inl rfl
  · next bytes hb =>
    simp only [prepareRequest, admissible, jsonSize, Except.bind_eq_ok,
      refuseIf_eq_ok, Except.pure_eq_ok, Except.ok.injEq, Bool.not_eq_true] at hb
    obtain ⟨_, ⟨_, _, _, _, _, hsize, rfl⟩, _, _, _, ⟨_, hopen, hroom⟩, rfl⟩ := hb
    exact .inr ⟨hopen, by omega, by omega, rfl⟩

/-- A refused submission changes nothing, an admitted one returns the number of its attempt. -/
theorem submitRequest_result (w : WriterWorld) (request : WriteRequest) (lockPoisoned : Bool) :
    (∃ e, C.submitRequest w request lockPoisoned = (w, .error e)) ∨
      ∃ bytes, C.submitRequest w request lockPoisoned =
        (w.admitted request bytes, .ok w.receipts.length) := by
  unfold submitRequest
  dsimp only
  split
  · next e _ => exact .inl ⟨e, rfl⟩
  · next bytes _ => exact .inr ⟨bytes, rfl⟩

theorem Inv.submitRequest (H : w.Inv C n p) (request : WriteRequest) (lockPoisoned : Bool) :
    (C.submitRequest w request lockPoisoned).1.Inv C n p := by
  rcases submitRequest_cases w request lockPoisoned with h | ⟨hopen, hw, hb, h⟩
  · rwa [h]
  rw [h]
  have hfail : w.state.failure = none := by
    simpa [WriterState.admissionClosed] using (Bool.or_eq_false_iff.1 hopen).2
  refine ⟨H.threads, H.worker, ?_, H.charged.admitted hw hb, H.sized.admitted, H.answered.admitted,
    H.ordered.admitted, H.outcomes.admitted, H.owed.admitted H.outcomes⟩
  -- a thread that no longer fetches has closed admission
  have hf := H.fits
  cases p with
  | settling error hands => simp [ThreadPoint.Fits, hfail] at hf
  | exited panicked => simp [ThreadPoint.Fits, hopen] at hf
  | dropping held resume =>
    cases resume with
    | settle error hands => simp [ThreadPoint.Fits, hfail] at hf
    | next | fail => exact hf
  | _ => exact hf

theorem Quiet.submitRequest (w : WriterWorld) (request : WriteRequest) (lockPoisoned : Bool) :
    Quiet w (C.submitRequest w request lockPoisoned).1 := by
  rcases submitRequest_cases w request lockPoisoned with h | ⟨hopen, _, _, h⟩
  · rw [h]
    exact .refl w
  · rw [h]
    refine ⟨⟨prefix_rfl, prefix_rfl, ?_, fun hc => ?_⟩, prefix_append _ _, rfl, rfl, rfl⟩
    · rw [charges_admitted]
      exact prefix_append _ _
    · simp [WriterState.admissionClosed, hc] at hopen

/-! ## Joining and recovery -/

/-- A joined thread has returned from its closure. -/
theorem Inv.joinFinished (H : w.Inv C n p) :
    joinFinished w = (w, .ok false) ∨
      p = .exited false ∧
        joinFinished w = ({ w with worker := ⟨none, false⟩ }, .ok true) := by
  have hp : w.threads[n]? = some p := by simp [H.threads]
  rcases H.worker with h | ⟨h, rfl⟩
  · cases p with
    | exited panicked =>
      have hb : panicked = false := H.fits.1
      subst hb
      exact .inr ⟨rfl, by simp [joinFinished, exited,
        handlePoint, h, hp, ThreadPoint.isExited]⟩
    | _ =>
      exact .inl (by simp [joinFinished, exited,
        handlePoint, h, hp, ThreadPoint.isExited])
  · exact .inr ⟨rfl, by simp [joinFinished, exited,
      handlePoint, h]⟩

theorem Inv.joined (H : w.Inv C n (.exited false)) :
    Inv C { w with worker := ⟨none, false⟩ } n (.exited false) :=
  H.frame ⟨rfl, rfl, rfl, rfl, rfl, rfl⟩ rfl (.inr ⟨rfl, rfl⟩) H.fits
    (H.charged.congr rfl rfl rfl rfl rfl)

theorem Inv.pollClosed (H : w.Inv C n p) (workerPoisoned statePoisoned : Bool) :
    (pollClosed w workerPoisoned statePoisoned).1.Inv C n p ∧
      Quiet w (pollClosed w workerPoisoned statePoisoned).1 := by
  unfold WriterCenter.pollClosed
  split
  · exact ⟨H, .refl w⟩
  · rcases H.joinFinished with h | ⟨rfl, h⟩
    · simp only [h]
      exact ⟨H, .refl w⟩
    · simp only [h]
      exact ⟨H.joined, .joined w⟩

/-- The replacement thread starts when the failed one has left nothing behind. -/
theorem Inv.spawn (H : w.Inv C n (.exited false)) :
    (WriterCenter.spawn { w with worker := ⟨none, false⟩ }).Inv C (n + 1) .fetch where
  threads := by
    simp [WriterCenter.spawn, H.threads, replicate_succ']
  worker := .inl (by simp [WriterCenter.spawn, H.threads])
  fits := ⟨H.fits.2.1, rfl⟩
  charged := H.charged.congr rfl rfl rfl rfl rfl
  sized := H.sized
  answered := H.answered
  ordered := ⟨H.ordered.sorted, H.ordered.bound, H.ordered.sublist, by simp, by simp⟩
  outcomes := ⟨H.outcomes.nodup, H.outcomes.published, H.outcomes.unpublished, H.outcomes.source⟩
  owed := ⟨H.owed.owed, H.owed.fresh, by simp [ThreadPoint.unpublished], by simp⟩

theorem Inv.recoverWorker (H : w.Inv C n p) (lockPoisoned spawned : Bool) :
    ((recoverWorker w lockPoisoned spawned).1.Inv C n p ∧
        Quiet w (recoverWorker w lockPoisoned spawned).1) ∨
      (p = .exited false ∧
        (recoverWorker w lockPoisoned spawned).1.Inv C (n + 1) .fetch ∧
        Quiet w (recoverWorker w lockPoisoned spawned).1) := by
  unfold WriterCenter.recoverWorker
  split
  · exact .inl ⟨H, .refl w⟩
  split
  · exact .inl ⟨H, .refl w⟩
  split
  · exact .inl ⟨H, .refl w⟩
  rcases H.joinFinished with h | ⟨rfl, h⟩
  · simp only [h]
    exact .inl ⟨H, .refl w⟩
  · simp only [h]
    split
    · exact .inl ⟨H.joined, .joined w⟩
    · split
      · exact .inr ⟨trivial, H.spawn, .of_eq rfl rfl rfl fun h => h, prefix_rfl, rfl, rfl, rfl⟩
      · exact .inl ⟨H.joined, .joined w⟩

/-! ## Runs -/

theorem Inv.new (C : WriterCenter) (journal : JournalState) :
    (new journal).Inv C 0 .fetch where
  threads := rfl
  worker := .inl rfl
  fits := ⟨rfl, rfl⟩
  charged := ⟨by simp [ownersAt, WriterCenter.new, ThreadPoint.held],
    by simp [ownersAt, WriterCenter.new, ThreadPoint.held],
    by simp [ownersAt, WriterCenter.new, ThreadPoint.held], Nat.zero_le _, Nat.zero_le _, rfl⟩
  sized := by simp [Sized, charges, WriterCenter.new]
  answered := by simp [Answered, WriterCenter.new]
  ordered := ⟨by simp [WriterCenter.new], by simp [WriterCenter.new], Sublist.refl _, by simp,
    by simp⟩
  outcomes := ⟨by simp [WriterCenter.new], by simp [WriterCenter.new], by simp [WriterCenter.new],
    by simp [WriterCenter.new]⟩
  owed := ⟨by simp [WriterCenter.new], by simp [WriterCenter.new],
    by simp [ThreadPoint.unpublished], by simp⟩

/-! ## One call -/

theorem Inv.perform (H : w.Inv C n p) (call : WriterCall) :
    (steps n call = true ∧ ∃ fault faults w' p', call = .thread n fault faults ∧
        Turn C n fault faults w p w' p' ∧ C.perform w call = w'.setThread n p' ∧
        (w'.setThread n p').Inv C n p') ∨
      (steps n call = false ∧ (C.perform w call).Inv C n p ∧ Quiet w (C.perform w call)) ∨
      (p = .exited false ∧ (C.perform w call).Inv C (n + 1) .fetch ∧ Quiet w (C.perform w call)) := by
  cases call with
  | submitRequest request lockPoisoned =>
    exact .inr (.inl ⟨rfl, H.submitRequest request lockPoisoned, .submitRequest ..⟩)
  | cloneReceipt id =>
    refine .inr (.inl ⟨rfl, ?_⟩)
    simp only [WriterCenter.perform]
    split
    · next hid =>
      exact ⟨H.cloneReceipt hid, .of_eq rfl rfl rfl fun h => h, prefix_rfl, rfl, rfl, rfl⟩
    · exact ⟨H, .refl w⟩
  | dropReceipt id =>
    refine .inr (.inl ⟨rfl, ?_⟩)
    simp only [WriterCenter.perform]
    split
    · next hid =>
      obtain ⟨⟨hc, he, hr, hl⟩, hq, ha, hs⟩ := Quiet.dropOwner { w with clients := w.clients.erase id } id
      exact ⟨H.dropReceipt hid, ⟨hc, he, hr, hl⟩, hq, ha, hs⟩
    · exact ⟨H, .refl w⟩
  | requestClose =>
    exact .inr (.inl ⟨rfl, H.requestClose, .of_eq rfl rfl rfl fun _ => rfl,
      prefix_rfl, rfl, rfl, rfl⟩)
  | pollClosed workerPoisoned statePoisoned =>
    exact .inr (.inl ⟨rfl, H.pollClosed workerPoisoned statePoisoned⟩)
  | recoverWorker lockPoisoned spawned =>
    rcases H.recoverWorker lockPoisoned spawned with h | ⟨hp, h⟩
    · exact .inr (.inl ⟨rfl, h⟩)
    · exact .inr (.inr ⟨hp, h⟩)
  | journal call =>
    refine .inr (.inl ⟨rfl, ?_, .of_eq rfl rfl rfl fun h => h, prefix_rfl, rfl, rfl, rfl⟩)
    exact H.frame ⟨rfl, rfl, rfl, rfl, rfl, rfl⟩ rfl H.worker H.fits
      (H.charged.congr rfl rfl rfl rfl rfl)
  | thread i fault faults =>
    by_cases hi : i = n
    · subst hi
      obtain ⟨w', p', T, hw, h⟩ := H.step_self fault faults
      exact .inl ⟨by simp [steps], fault, faults, w', p', rfl, T, hw, h⟩
    · refine .inr (.inl ⟨by simp [steps, hi], ?_⟩)
      rw [WriterCenter.perform, H.step_other hi]
      exact ⟨H, .refl w⟩

theorem Inv.runFrom (H : w.Inv C n p) (calls : List WriterCall) :
    (∃ n' p', (C.runFrom w calls).Inv C n' p') ∧ Grows w (C.runFrom w calls) := by
  induction calls generalizing w n p with
  | nil => exact ⟨⟨n, p, H⟩, .refl w⟩
  | cons call calls ih =>
    rcases H.perform call with ⟨_, _, _, w', p', -, T, hw, h⟩ | ⟨_, h, hq⟩ | ⟨_, h, hg⟩
    · obtain ⟨hinv, hg⟩ := ih h
      have hs : Grows w (w'.setThread n p') :=
        ⟨T.grows.completed, T.grows.executed, T.grows.charges, T.grows.closed⟩
      simp only [runFrom, foldl_cons, hw]
      exact ⟨hinv, hs.trans hg⟩
    · exact ⟨(ih h).1, hq.toGrows.trans (ih h).2⟩
    · exact ⟨(ih h).1, hg.toGrows.trans (ih h).2⟩

/-! ## What a client sees of a call -/

/-- What one call does to the journal, to the executions and to the admitted attempts. -/
inductive Seen (C : WriterCenter) (w : WriterWorld) (call : WriterCall) (w' : WriterWorld) : Prop where
  | none : w'.journal = w.journal → w'.executed = w.executed → w'.charges = w.charges →
    Seen C w call w'
  | submit {request : WriteRequest} {lockPoisoned : Bool} {bytes : ℕ} :
    call = .submitRequest request lockPoisoned → w'.journal = w.journal →
    w'.executed = w.executed → w'.charges = w.charges ++ [(request, bytes)] → Seen C w call w'
  | journal {journalCall : JournalCall} : call = .journal journalCall →
    w'.journal = (C.journal.perform w.journal journalCall).1 → w'.executed = w.executed →
    w'.charges = w.charges → Seen C w call w'
  | execute {i id : ℕ} {x : WriteRequest × ℕ} {fault : ThreadFault} {faults : TransactionFaults} :
    call = .thread i fault faults → w.charges[id]? = some x → ¬ w.Completed id →
    w'.journal = (C.write w.journal x.1 faults).1 →
    w'.executed = w.executed ++ [⟨i, id, (C.write w.journal x.1 faults).2⟩] →
    w'.charges = w.charges → Seen C w call w'

theorem Seen.submitRequest (w : WriterWorld) (request : WriteRequest) (lockPoisoned : Bool) :
    Seen C w (.submitRequest request lockPoisoned)
      (C.submitRequest w request lockPoisoned).1 := by
  rcases submitRequest_cases w request lockPoisoned with h | ⟨_, _, _, h⟩
  · rw [h]
    exact .none rfl rfl rfl
  · rw [h]
    exact .submit rfl rfl rfl charges_admitted

theorem Seen.dropReceipt (w : WriterWorld) (id : ℕ) :
    Seen C w (.dropReceipt id) (C.perform w (.dropReceipt id)) := by
  simp only [perform]
  split
  · unfold dropOwner releaseLast
    split
    · exact .none rfl rfl rfl
    · cases WriterState.release _ _ <;> exact .none rfl rfl rfl
  · exact .none rfl rfl rfl

theorem charges_dropReceipt (w : WriterWorld) (id : ℕ) :
    (C.perform w (.dropReceipt id)).charges = w.charges := by
  cases Seen.dropReceipt (C := C) w id with
  | none _ _ h => exact h
  | submit h | journal h | execute h => cases h

theorem Inv.call (H : w.Inv C n p) (call : WriterCall) :
    (∃ n' p', (C.perform w call).Inv C n' p') ∧ Grows w (C.perform w call) := H.runFrom [call]

theorem Inv.seen (H : w.Inv C n p) (call : WriterCall) : Seen C w call (C.perform w call) := by
  cases call with
  | submitRequest request lockPoisoned => exact .submitRequest w request lockPoisoned
  | cloneReceipt id =>
    simp only [WriterCenter.perform]
    split <;> exact .none rfl rfl rfl
  | dropReceipt id => exact .dropReceipt w id
  | requestClose => exact .none rfl rfl rfl
  | pollClosed workerPoisoned statePoisoned =>
    simp only [WriterCenter.perform, WriterCenter.pollClosed]
    split
    · exact .none rfl rfl rfl
    · rcases H.joinFinished with h | ⟨-, h⟩ <;> simp only [h] <;> exact .none rfl rfl rfl
  | recoverWorker lockPoisoned spawned =>
    simp only [WriterCenter.perform, WriterCenter.recoverWorker]
    split
    · exact .none rfl rfl rfl
    split
    · exact .none rfl rfl rfl
    split
    · exact .none rfl rfl rfl
    rcases H.joinFinished with h | ⟨-, h⟩
    · simp only [h]
      exact .none rfl rfl rfl
    · simp only [h]
      split
      · exact .none rfl rfl rfl
      · split <;> exact .none rfl rfl rfl
  | journal call => exact .journal rfl rfl rfl rfl
  | thread i fault faults =>
    by_cases hi : i = n
    · subst hi
      obtain ⟨w', p', T, hw, -⟩ := H.step_self fault faults
      have hc : (w'.setThread i p').charges = w.charges := T.charges
      rw [WriterCenter.perform, hw]
      cases T with
      | @execute id receipt hr =>
        have hx : w.charges[id]? = some (receipt.request, receipt.bytes) := by
          rw [charges, getElem?_map, hr]
          rfl
        exact .execute rfl hx (H.owed.unpublished id (mem_singleton_self id)) rfl rfl hc
      | _ => exact .none rfl rfl hc
    · rw [WriterCenter.perform, H.step_other hi]
      exact .none rfl rfl rfl

/-! ## Completion -/

/-- A bound on the steps of the thread at `p` until attempt `a` has an outcome. A turn of `run` takes
eight steps; `fail` spends three on each attempt it took. -/
def countdown (s : WriterState) (a : ℕ) : ThreadPoint → ℕ
  | .fetch => 8 * s.queued.idxOf a + 8
  | .claimed id => if a = id then 7 else 8 * s.queued.idxOf a + 15
  | .writing id => if a = id then 6 else 8 * s.queued.idxOf a + 14
  | .written id _ => if a = id then 5 else 8 * s.queued.idxOf a + 13
  | .published _ => 8 * s.queued.idxOf a + 12
  | .dropping held .next => held.length + 8 * s.queued.idxOf a + 9
  | .dropping held (.fail _) => held.length + 3 * (s.active.toList ++ s.queued).idxOf a + 3
  | .failing _ => 3 * (s.active.toList ++ s.queued).idxOf a + 2
  | .dropping held (.settle _ hands) => held.length + 3 * hands.idxOf a + 2
  | .settling _ hands => 3 * hands.idxOf a + 1
  | .exited _ => 0

section
variable {a : ℕ}

theorem idxOf_cons_if : (id :: l).idxOf a = if a = id then 0 else l.idxOf a + 1 := by
  split
  · next h => rw [h, idxOf_cons_self]
  · next h => rw [idxOf_cons_ne _ (Ne.symm h)]

/-- Where an attempt without an outcome is. -/
theorem Inv.pending (H : w.Inv C n p) (ha : a < w.receipts.length) (hc : ¬ w.Completed a) :
    a ∈ w.state.active.toList ++ p.hands ++ w.state.queued := H.owed.owed a ha hc

theorem Turn.countdown_lt (T : Turn C n fault faults w p w' p') (H : w.Inv C n p)
    (ha : a < w.receipts.length) (hc : ¬ w'.Completed a) :
    countdown w'.state a p' < countdown w.state a p := by
  have hc₀ : ¬ w.Completed a := fun h =>
    hc ((T.grows.completed.map Prod.fst).subset h)
  have hmem := H.pending ha hc₀
  have hf := H.fits
  cases T with
  | wait hq | leave hq => simp [hf.1, hq, ThreadPoint.hands] at hmem
  | unwind error hp =>
    cases p with
    | fetch =>
      simp only [countdown, ThreadPoint.held, length_nil, hf.1, toList_none,
        nil_append]
      omega
    | claimed id | writing id | written id | published id =>
      simp only [countdown, ThreadPoint.held, length_singleton, hf.1, toList_some,
        cons_append, nil_append, idxOf_cons_if]
      split <;> omega
    | dropping | failing | settling | exited => exact hp.elim
  | @claim id queued hq =>
    simp only [countdown, hq, idxOf_cons_if]
    split <;> omega
  | announce | execute =>
    simp only [countdown, setPhase]
    split <;> omega
  | @publish id result =>
    have hid : id < w.receipts.length :=
      H.charged.known id (by simp [ownersAt, ThreadPoint.held])
    have hne : a ≠ id := fun h => hc ((H.outcomes.completed_complete hid a).2 (.inr h))
    simp only [countdown, if_neg hne, WriterWorld.complete]
    omega
  | vacate =>
    simp only [countdown, length_cons, length_nil]
    omega
  | @drop id rest resume =>
    cases resume <;> simp only [countdown, length_cons] <;> omega
  | next | fail | settle | take =>
    simp only [countdown, length_nil]
    omega
  | @complete error id hands =>
    have hid : id < w.receipts.length :=
      H.charged.known id (by simp [ownersAt, ThreadPoint.held])
    have hne : a ≠ id := fun h => hc ((H.outcomes.completed_complete hid a).2 (.inr h))
    simp only [countdown, length_singleton, idxOf_cons_if, if_neg hne]
    omega
  | finish => simp [hf.1, hf.2.1, ThreadPoint.hands] at hmem
  | rest => simp [hf.2.1, hf.2.2.1, ThreadPoint.hands] at hmem

theorem idxOf_of_prefix (h : l <+: l') (ha : a ∈ l) : l'.idxOf a = l.idxOf a := by
  obtain ⟨ext, rfl⟩ := h
  exact idxOf_append_of_mem ha

/-- New attempts queue up behind. -/
theorem Quiet.countdown_eq (Q : Quiet w w') (H : w.Inv C n p) (ha : a < w.receipts.length)
    (hc : ¬ w.Completed a) : countdown w'.state a p = countdown w.state a p := by
  have hmem := H.pending ha hc
  have hf := H.fits
  have behind : w.state.active = none ∧ p.hands = [] →
      w'.state.queued.idxOf a = w.state.queued.idxOf a := by
    rintro ⟨hn, hh⟩
    exact idxOf_of_prefix Q.queued (by simpa [hn, hh] using hmem)
  have beside : ∀ id, a ≠ id → w.state.active = some id ∧ p.hands = [] →
      w'.state.queued.idxOf a = w.state.queued.idxOf a := by
    rintro id hne ⟨hs, hh⟩
    exact idxOf_of_prefix Q.queued (by simpa [hs, hh, hne] using hmem)
  have both : p.hands = [] → (w'.state.active.toList ++ w'.state.queued).idxOf a =
      (w.state.active.toList ++ w.state.queued).idxOf a := by
    intro hh
    rw [Q.active]
    exact idxOf_of_prefix ((prefix_append_right_inj _).2 Q.queued) (by simpa [hh] using hmem)
  cases p with
  | fetch => rw [countdown, countdown, behind ⟨hf.1, rfl⟩]
  | claimed id | writing id | written id =>
    simp only [countdown]
    split
    · rfl
    · next hne => rw [beside id hne ⟨hf.1, rfl⟩]
  | published id =>
    have hne : a ≠ id := fun h => hc (h ▸ H.owed.published id rfl)
    rw [countdown, countdown, beside id hne ⟨hf.1, rfl⟩]
  | dropping held resume =>
    cases resume with
    | next => rw [countdown, countdown, behind ⟨hf.1, rfl⟩]
    | fail error => rw [countdown, countdown, both rfl]
    | settle error hands => rfl
  | failing error => rw [countdown, countdown, both rfl]
  | settling error hands => rfl
  | exited panicked => rfl

/-- Each step of the current thread brings an attempt closer to its outcome. -/
theorem Inv.completed_within (H : w.Inv C n p) (ha : a < w.receipts.length) (calls : List WriterCall)
    (hn : countdown w.state a p < calls.countP (steps n)) : (C.runFrom w calls).Completed a := by
  induction calls generalizing w p with
  | nil => exact absurd hn (Nat.not_lt_zero _)
  | cons call calls ih =>
    have later : ∀ {w'}, C.perform w call = w' → (∃ n' p', w'.Inv C n' p') → w'.Completed a →
        (C.runFrom w (call :: calls)).Completed a := by
      rintro w' rfl ⟨n', p', h⟩ hc
      exact ((h.runFrom calls).2.completed.map Prod.fst).subset hc
    by_cases hc : w.Completed a
    · obtain ⟨_, hg⟩ := H.runFrom (call :: calls)
      exact (hg.completed.map Prod.fst).subset hc
    rw [countP_cons] at hn
    rcases H.perform call with ⟨hs, _, _, w', p', -, T, hw, h⟩ | ⟨hs, h, hq⟩ | ⟨rfl, -, -⟩
    · by_cases hc' : w'.Completed a
      · exact later hw ⟨n, p', h⟩ hc'
      · have hlt := T.countdown_lt H ha hc'
        have hlen : a < (w'.setThread n p').receipts.length := ha.trans_le T.grows.admitted
        simp only [hs, if_true] at hn
        simp only [WriterCenter.runFrom, foldl_cons, hw]
        exact ih h hlen (by simp only [setThread]; omega)
    · have heq := hq.countdown_eq H ha hc
      simp only [hs, Bool.false_eq_true, if_false, Nat.add_zero] at hn
      exact ih h (ha.trans_le hq.admitted) (heq ▸ hn)
    · have hf := H.fits
      have hmem := H.pending ha hc
      simp [hf.2.1, hf.2.2.1, ThreadPoint.hands] at hmem

end

/-! ## The results of a run -/

section
variable (H : w.Inv C n p)
include H

theorem Inv.pendingWrites_eq : w.state.pendingWrites = w.owners.toFinset.card := by
  rw [owners_eq H.threads, H.charged.writes, Multiset.charge_one]

theorem Inv.pendingBytes_eq : w.state.pendingBytes =
    ∑ id ∈ w.owners.toFinset, (w.receipts[id]?.elim 0 fun r => C.requestSize r.request) := by
  rw [owners_eq H.threads, H.charged.bytes]
  apply Multiset.charge_congr
  intro id hid
  have hr := getElem?_eq_getElem (H.charged.known id hid)
  have hsize := H.sized _ (mem_map_of_mem (mem_of_getElem? hr))
  rw [WriterWorld.bytes, hr]
  exact hsize

theorem Inv.executed_sorted : (w.executed.map Execution.attempt).Pairwise (· < ·) := by
  have hs : (w.executions.map Prod.snd).Sublist (w.started.map Prod.snd) :=
    H.ordered.sublist.map Prod.snd
  have he : w.executions.map Prod.snd = w.executed.map Execution.attempt := by
    simp [executions, Function.comp_def]
  exact (pairwise_append.1 H.ordered.sorted).1.sublist (he ▸ hs)

theorem Inv.executed_lt (hx : x ∈ w.executed) : x.attempt < w.receipts.length := by
  have hmem : (x.thread, x.attempt) ∈ w.started :=
    H.ordered.sublist.subset (mem_map.2 ⟨x, hx, rfl⟩)
  exact H.ordered.bound x.attempt (mem_append_left _ (mem_map.2 ⟨_, hmem, rfl⟩))

theorem Inv.exited_of_lt (hi : i + 1 < w.threads.length) : w.threads[i]? = some (.exited false) := by
  rw [H.threads, length_append, length_replicate, length_singleton] at hi
  rw [H.threads, getElem?_append_left (by simp; omega), getElem?_replicate,
    if_pos (by omega)]

/-- An acknowledged receipt was executed and answers with the successor it was asked for. -/
theorem Inv.acknowledged (hr : w.receipts[id]? = some receipt)
    (hs : receipt.snapshot = .ofResult (.ok revision)) : (∃ i, ⟨i, id, .ok revision⟩ ∈ w.executed) ∧
      revision = receipt.request.expectedRevision.getD 0 + 1 := by
  have hp : receipt.snapshot.phase = .completed := hs ▸ ofResult_phase _
  obtain ⟨result, hc, hs'⟩ := H.outcomes.of_completed hr hp
  cases JournalWriteSnapshot.ofResult_inj (hs.symm.trans hs')
  rcases H.outcomes.source _ hc with ⟨i, hi⟩ | ⟨e, he⟩
  · refine ⟨⟨i, hi⟩, ?_⟩
    obtain ⟨x, hx, h⟩ := H.answered _ hi revision rfl
    rw [WriterWorld.charges, getElem?_map, hr] at hx
    cases hx
    exact h
  · cases he

theorem Inv.snapshot_later (h : (id, result) ∈ w.completed) (more : List WriterCall) :
    ∃ receipt, (C.runFrom w more).receipts[id]? = some receipt ∧
      receipt.snapshot = .ofResult result := by
  obtain ⟨⟨n', p', H'⟩, hg⟩ := H.runFrom more
  exact H'.outcomes.published _ (hg.completed.subset h)

end

end WriterWorld

open WriterWorld in
/-- Accounting, order, outcomes, replacement and closure over every interleaving. Attempts are
numbered in the order of admission; `bound` counts steps of the current thread. -/
theorem WriterCenter.run_exactly_once (C : WriterCenter) (journal : JournalState)
    (calls : List WriterCall) :
    let w := C.run journal calls
    (w.underflow = false ∧
      w.state.pendingWrites = w.owners.toFinset.card ∧
      w.state.pendingBytes =
        ∑ id ∈ w.owners.toFinset, (w.receipts[id]?.elim 0 fun r => C.requestSize r.request) ∧
      w.state.pendingWrites ≤ C.config.maxPendingWrites ∧
      w.state.pendingBytes ≤ C.config.maxPendingBytes) ∧
    ((w.started.map Prod.snd).Pairwise (· < ·) ∧
      (∀ x ∈ w.started, x.2 < w.receipts.length) ∧
      (w.executed.map fun x => (x.thread, x.attempt)).Sublist w.started ∧
      (w.executed.map Execution.attempt).Pairwise (· < ·)) ∧
    ((w.completed.map Prod.fst).Nodup ∧
      (∀ x ∈ w.completed, (∃ i, ⟨i, x.1, x.2⟩ ∈ w.executed) ∨ ∃ e, x.2 = .error e) ∧
      (∀ id receipt, w.receipts[id]? = some receipt →
        (receipt.snapshot.phase = .completed ↔ id ∈ w.completed.map Prod.fst)) ∧
      (∀ id result, (id, result) ∈ w.completed → ∀ more,
        ∃ receipt, (C.runFrom w more).receipts[id]? = some receipt ∧
          receipt.snapshot = .ofResult result) ∧
      (∀ id < w.receipts.length, ∃ bound, ∀ more : List WriterCall,
        bound < more.countP (steps (w.threads.length - 1)) →
          id ∈ (C.runFrom w more).completed.map Prod.fst)) ∧
    (∀ i, i + 1 < w.threads.length → w.threads[i]? = some (.exited false)) ∧
    (w.state.closeRequested = true → ∀ more : List WriterCall,
      (C.runFrom w more).receipts.length = w.receipts.length) := by
  intro w
  obtain ⟨⟨n, p, H⟩, -⟩ : (∃ n p, w.Inv C n p) ∧ _ := (Inv.new C journal).runFrom calls
  have hn : w.threads.length - 1 = n := by simp [H.threads]
  obtain ⟨sorted, bound, sublist, -, -⟩ := H.ordered
  refine ⟨⟨H.charged.underflow, H.pendingWrites_eq, H.pendingBytes_eq, H.charged.writes_le,
    H.charged.bytes_le⟩, ⟨(pairwise_append.1 sorted).1, fun x hx => ?_, sublist,
    H.executed_sorted⟩, ⟨H.outcomes.nodup, H.outcomes.source, fun id receipt => H.outcomes.phase_iff,
    fun id result h more => H.snapshot_later h more, fun id hid => ?_⟩,
    fun i hi => H.exited_of_lt hi, fun hc more => ?_⟩
  · exact bound x.2 (mem_append_left _ (mem_map_of_mem hx))
  · exact ⟨countdown w.state id p, fun more hm => H.completed_within hid more (hn ▸ hm)⟩
  · exact ((H.runFrom more).2.closed hc).2

end LuaSkills.Embedded
