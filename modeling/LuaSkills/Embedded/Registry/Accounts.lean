import LuaSkills.Embedded.Registry.Moves

/-!
# The books of the registry

`Accounts`: the counters of handlers are counts of the calls that own a permit. `Callbacks`: a callback
that left its registration is being destroyed by exactly one task. `Gates`: which registrations still
admit calls while the registry shuts down. Each is stated about the parts of a world it reads.
-/

namespace LuaSkills.Embedded

open AList

variable {tasks' : AssocMap ℕ RegistryTask}

namespace CapabilityRegistry

def ofEntry (id : String) (c : AdmittedCall) : Bool := c.entryId = id

def destroysOf (id : String) (t : RegistryTask) : Bool := t.destroys = some id

structure Accounts (R : CapabilityRegistry) (heap : AssocMap String EntryState)
    (calls : AssocMap ℕ AdmittedCall) (running nextCall : ℕ) (underflowed : Bool) : Prop where
  counts : ∀ id e, heap.lookup id = some e → e.running = calls.countBy (ofEntry id)
  total : running = calls.size
  owned : ∀ k c, calls.lookup k = some c → c.entryId ∈ heap
  limit : running ≤ R.limit
  concurrent : ∀ id e, heap.lookup id = some e → e.running ≤ e.descriptor.maxConcurrent
  numbered : ∀ k c, calls.lookup k = some c → k < nextCall
  solvent : underflowed = false

structure Callbacks (heap : AssocMap String EntryState) (tasks : AssocMap ℕ RegistryTask)
    (nextTask : ℕ) : Prop where
  destroyed : ∀ id e, heap.lookup id = some e →
    tasks.countBy (destroysOf id) = if e.releasing then 1 else 0
  releasing : ∀ id e, heap.lookup id = some e → e.releasing = true →
    e.accepting = false ∧ e.running = 0 ∧ e.native = none
  known : ∀ k t id, tasks.lookup k = some t → t.destroys = some id → id ∈ heap
  numbered : ∀ k t, tasks.lookup k = some t → k < nextTask

/-- A registration that does not admit business calls. -/
def EntryState.narrow (e : EntryState) : Prop := e.accepting = false ∨ e.finalizationOnly = true

structure Gates (R : CapabilityRegistry) (registry : RegistryState)
    (heap : AssocMap String EntryState) (tasks : AssocMap ℕ RegistryTask) (log : List RegistryEvent) :
    Prop where
  numbered : ∀ id ∈ heap, ∃ n ≤ registry.sequence, id = IdentityKind.capability.render R.runtimeId n
  forgotten : ∀ id e, heap.lookup id = some e → id ∉ registry.entries → e.accepting = false
  shutting : ∀ k ids, tasks.lookup k = some (.beginShutdown ids) → registry.closing = true ∧
    ∀ id e, heap.lookup id = some e → id ∈ ids ∨ EntryState.narrow e
  shut : .shutdownBegun ∈ log → registry.closing = true ∧
    ∀ id e, heap.lookup id = some e → EntryState.narrow e

section
variable {R : CapabilityRegistry} {heap : AssocMap String EntryState}
  {calls : AssocMap ℕ AdmittedCall} {tasks : AssocMap ℕ RegistryTask} {running nextCall nextTask k : ℕ}
  {underflowed : Bool} {id : String} {e e' : EntryState} {c c' : AdmittedCall} {t : RegistryTask}
  {registry : RegistryState} {log : List RegistryEvent}

theorem retire_running : e.retire.running = e.running := by
  unfold EntryState.retire
  split <;> rfl

theorem retire_descriptor : e.retire.descriptor = e.descriptor := by
  unfold EntryState.retire
  split <;> rfl

theorem retire_accepting : e.retire.accepting = e.accepting := by
  unfold EntryState.retire
  split <;> rfl

theorem retire_finalizationOnly : e.retire.finalizationOnly = e.finalizationOnly := by
  unfold EntryState.retire
  split <;> rfl

theorem retires_iff : e.retires = true ↔ e.accepting = false ∧ e.running = 0 ∧ e.native.isSome := by
  simp [EntryState.retires, and_assoc]

theorem drained_iff : e.drained = true ↔
    e.accepting = false ∧ e.running = 0 ∧ e.native = none ∧ e.releasing = false := by
  simp [EntryState.drained, and_assoc]

/-! ## Handlers -/

/-- A registration changes without its counter. -/
theorem Accounts.setEntry (h : Accounts R heap calls running nextCall underflowed)
    (he : heap.lookup id = some e) (hrunning : e'.running = e.running)
    (hdescriptor : e'.descriptor = e.descriptor) :
    Accounts R (heap.insert id e') calls running nextCall underflowed := { h with
  counts := by
    intro i x hx
    rcases lookup_of_insert hx with ⟨hi, rfl⟩ | ⟨-, hx⟩
    · rw [hrunning, hi, h.counts id e he]
    · exact h.counts i x hx
  owned := fun k c hc => (mem_insert _).2 (.inr (h.owned k c hc))
  concurrent := by
    refine forall_insert h.concurrent ?_
    rw [hrunning, hdescriptor]
    exact h.concurrent id e he }

/-- A call moves to another stage. -/
theorem Accounts.setCall (h : Accounts R heap calls running nextCall underflowed)
    (hc : calls.lookup k = some c) (hentry : c'.entryId = c.entryId) :
    Accounts R heap (calls.insert k c') running nextCall underflowed := { h with
  counts := by
    intro i x hx
    have hsame : ofEntry i c' = ofEntry i c := by
      unfold ofEntry
      rw [hentry]
    rw [h.counts i x hx, countBy_insert, countBy_of_lookup hc, hsame]
  total := by rw [h.total, size_insert_of_lookup hc]
  owned := by
    refine forall_insert h.owned ?_
    rw [hentry]
    exact h.owned k c hc
  numbered := by
    intro j x hx
    rw [lookup_insert_eq] at hx
    split at hx
    next hj =>
      rw [hj]
      exact h.numbered k c hc
    next => exact h.numbered j x hx }

theorem Accounts.publish (h : Accounts R heap calls running nextCall underflowed)
    (hid : id ∉ heap) (hrunning : e.running = 0) :
    Accounts R (heap.insert id e) calls running nextCall underflowed := { h with
  counts := by
    intro i x hx
    rcases lookup_of_insert hx with ⟨hi, rfl⟩ | ⟨-, hx⟩
    · symm
      rw [hrunning, countBy_eq_zero]
      intro j x hx
      have hne : x.entryId ≠ i := fun heq => hid (hi ▸ heq ▸ h.owned j x hx)
      simp [ofEntry, hne]
    · exact h.counts i x hx
  owned := fun k c hc => (mem_insert _).2 (.inr (h.owned k c hc))
  concurrent := by
    refine forall_insert h.concurrent ?_
    rw [hrunning]
    exact Nat.zero_le _ }

theorem Accounts.admitEntry (h : Accounts R heap calls running nextCall underflowed)
    (he : heap.lookup id = some e) (hc : c.entryId = id) (hlimit : running < R.limit)
    (hconcurrent : e.running < e.descriptor.maxConcurrent) :
    Accounts R (heap.insert id { e with running := e.running + 1 }) (calls.insert nextCall c)
      (running + 1) (nextCall + 1) underflowed := by
  have hnew : nextCall ∉ calls := by
    intro hmem
    obtain ⟨x, hx⟩ := mem_iff_lookup.1 hmem
    exact absurd (h.numbered nextCall x hx) (lt_irrefl _)
  exact {
    counts := by
      intro i x hx
      rw [countBy_insert_of_notMem hnew]
      rcases lookup_of_insert hx with ⟨hi, rfl⟩ | ⟨hi, hx⟩
      · rw [hi, ← h.counts id e he]
        simp [ofEntry, hc]
      · rw [h.counts i x hx]
        have hne : ¬ id = i := fun heq => hi heq.symm
        simp [ofEntry, hc, hne]
    total := by rw [size_insert_of_notMem hnew, h.total]
    owned := by
      intro j x hx
      rcases lookup_of_insert hx with ⟨-, rfl⟩ | ⟨-, hx⟩
      · exact (mem_insert _).2 (.inl hc)
      · exact (mem_insert _).2 (.inr (h.owned j x hx))
    limit := hlimit
    concurrent := forall_insert h.concurrent hconcurrent
    numbered := by
      intro j x hx
      rw [lookup_insert_eq] at hx
      split at hx
      next hj => omega
      next => exact (h.numbered j x hx).trans (Nat.lt_succ_self _)
    solvent := h.solvent }

/-- A permit that is dropped was counted in both counters. -/
theorem Accounts.drop (h : Accounts R heap calls running nextCall underflowed)
    (hc : calls.lookup k = some c) (he : heap.lookup c.entryId = some e)
    (hrunning : e'.running = e.running - 1) (hdescriptor : e'.descriptor = e.descriptor) :
    Accounts R (heap.insert c.entryId e') (calls.erase k) (running - 1) nextCall
      (underflowed || running = 0 || e.running = 0) := by
  have hsize := size_of_lookup hc
  have hcount : e.running = (calls.erase k).countBy (ofEntry c.entryId) + 1 := by
    rw [h.counts _ e he, countBy_of_lookup hc]
    simp [ofEntry]
  have htotal : running = (calls.erase k).size + 1 := by rw [h.total, hsize]
  exact {
    counts := by
      intro i x hx
      rcases lookup_of_insert hx with ⟨hi, rfl⟩ | ⟨hi, hx⟩
      · rw [hrunning, hcount, hi]
        rfl
      · rw [h.counts i x hx, countBy_of_lookup hc]
        have hne : ¬ c.entryId = i := fun heq => hi heq.symm
        simp [ofEntry, hne]
    total := by omega
    owned := by
      intro j x hx
      exact (mem_insert _).2 (.inr (h.owned j x (lookup_of_erase hx).2))
    limit := (Nat.sub_le _ _).trans h.limit
    concurrent := by
      refine forall_insert h.concurrent ?_
      rw [hrunning, hdescriptor]
      exact (Nat.sub_le _ _).trans (h.concurrent _ e he)
    numbered := forall_erase h.numbered
    solvent := by
      have hsolvent := h.solvent
      simp [hsolvent, htotal, hcount] }

/-- The counter of the runtime is the sum of the counters of the registrations. -/
theorem Accounts.running_eq_sum (h : Accounts R heap calls running nextCall underflowed) :
    running = heap.sumBy fun _ e => e.running := by
  rw [sumBy_eq_sum_keys h.counts, h.total]
  symm
  apply sum_countBy_owner
  intro x hx
  have hmem := h.owned x.1 x.2 (mem_entries_iff.1 hx)
  simpa using mem_keys.1 hmem

/-! ## Callbacks -/

/-- The destroyers of a callback while a task goes on or ends. -/
theorem countBy_setTask (t' : Option RegistryTask) (p : RegistryTask → Bool)
    (ht : tasks.lookup k = some t) :
    (setTask tasks k t').countBy p + (if p t then 1 else 0) =
      tasks.countBy p + (t'.elim 0 fun x => if p x then 1 else 0) := by
  cases t' with
  | none =>
    rw [countBy_of_lookup ht]
    rfl
  | some x =>
    change (tasks.insert k x).countBy p + _ = _ + if p x then 1 else 0
    rw [countBy_insert, countBy_of_lookup ht]
    omega

theorem lookup_setTask (t' : Option RegistryTask) (hx : (setTask tasks k t').lookup j = some x) :
    t' = some x ∧ j = k ∨ tasks.lookup j = some x := by
  cases t' with
  | none =>
    change (tasks.erase k).lookup j = some x at hx
    exact .inr (lookup_of_erase hx).2
  | some y =>
    change (tasks.insert k y).lookup j = some x at hx
    rcases lookup_of_insert hx with ⟨hj, rfl⟩ | ⟨-, hx⟩
    · exact .inl ⟨rfl, hj⟩
    · exact .inr hx

/-- A registration changes together with the tasks that destroy its callback. -/
theorem Callbacks.update (h : Callbacks heap tasks nextTask)
    (hother : ∀ i, i ≠ id → tasks'.countBy (destroysOf i) = tasks.countBy (destroysOf i))
    (hcount : tasks'.countBy (destroysOf id) = if e'.releasing then 1 else 0)
    (hreleasing : e'.releasing = true → e'.accepting = false ∧ e'.running = 0 ∧ e'.native = none)
    (hknown : ∀ j x i, tasks'.lookup j = some x → x.destroys = some i →
      i = id ∨ ∃ j x, tasks.lookup j = some x ∧ x.destroys = some i)
    (hnumbered : ∀ j x, tasks'.lookup j = some x → j < nextTask') :
    Callbacks (heap.insert id e') tasks' nextTask' where
  destroyed := by
    intro i x hx
    rcases lookup_of_insert hx with ⟨hi, rfl⟩ | ⟨hi, hx⟩
    · rw [hi]
      exact hcount
    · rw [hother i hi]
      exact h.destroyed i x hx
  releasing := forall_insert h.releasing hreleasing
  known := by
    intro j x i hx hi
    rcases hknown j x i hx hi with rfl | ⟨j, x, hx, hi⟩
    · exact (mem_insert _).2 (.inl rfl)
    · exact (mem_insert _).2 (.inr (h.known j x i hx hi))
  numbered := hnumbered

theorem Callbacks.setEntry (h : Callbacks heap tasks nextTask) (he : heap.lookup id = some e)
    (hsame : e'.releasing = e.releasing)
    (hreleasing : e.releasing = true → e'.accepting = false ∧ e'.running = 0 ∧ e'.native = none) :
    Callbacks (heap.insert id e') tasks nextTask := by
  refine h.update (fun _ _ => rfl) ?_ ?_ ?_ h.numbered
  · rw [hsame]
    exact h.destroyed id e he
  · rw [hsame]
    exact hreleasing
  · exact fun j x i hx hi => .inr ⟨j, x, hx, hi⟩

theorem Callbacks.publish (h : Callbacks heap tasks nextTask) (hid : id ∉ heap)
    (he : e.releasing = false) : Callbacks (heap.insert id e) tasks nextTask := by
  refine h.update (fun _ _ => rfl) ?_ ?_ ?_ h.numbered
  · rw [he]
    refine countBy_eq_zero.2 ?_
    intro j x hx
    by_contra hne
    simp only [destroysOf, Bool.not_eq_false, decide_eq_true_eq] at hne
    exact hid (h.known j x id hx hne)
  · rw [he]
    exact nofun
  · exact fun j x i hx hi => .inr ⟨j, x, hx, hi⟩

/-- A task starts that destroys nothing. -/
theorem Callbacks.spawn (h : Callbacks heap tasks nextTask) (ht : t.destroys = none) :
    Callbacks heap (tasks.insert nextTask t) (nextTask + 1) where
  destroyed := by
    intro i x hx
    have hnew : nextTask ∉ tasks := by
      intro hmem
      obtain ⟨y, hy⟩ := mem_iff_lookup.1 hmem
      exact absurd (h.numbered nextTask y hy) (lt_irrefl _)
    rw [countBy_insert_of_notMem hnew, ← h.destroyed i x hx]
    simp [destroysOf, ht]
  releasing := h.releasing
  known := by
    intro j x i hx hi
    rcases lookup_of_insert hx with ⟨-, rfl⟩ | ⟨-, hx⟩
    · rw [ht] at hi
      cases hi
    · exact h.known j x i hx hi
  numbered := by
    intro j x hx
    rw [lookup_insert_eq] at hx
    split at hx
    next hj => omega
    next => exact (h.numbered j x hx).trans (Nat.lt_succ_self _)

theorem Callbacks.setTask_numbered (h : Callbacks heap tasks nextTask) (ht : tasks.lookup k = some t) :
    ∀ j x, (setTask tasks k t').lookup j = some x → j < nextTask := by
  intro j x hx
  rcases lookup_setTask _ hx with ⟨-, rfl⟩ | hx
  · exact h.numbered j t ht
  · exact h.numbered j x hx

/-- A task that destroys nothing goes on or ends. -/
theorem Callbacks.retask (h : Callbacks heap tasks nextTask) (t' : Option RegistryTask)
    (ht : tasks.lookup k = some t) (hnone : t.destroys = none)
    (hnone' : ∀ x, t' = some x → x.destroys = none) :
    Callbacks heap (setTask tasks k t') nextTask where
  destroyed := by
    intro i x hx
    rw [← h.destroyed i x hx]
    have hcount := countBy_setTask t' (destroysOf i) ht
    have hzero : (t'.elim 0 fun x => if destroysOf i x then 1 else 0) = 0 := by
      cases t' with
      | none => rfl
      | some y => simp [destroysOf, hnone' y rfl]
    rw [hzero] at hcount
    simpa [destroysOf, hnone] using hcount
  releasing := h.releasing
  known := by
    intro j x i hx hi
    rcases lookup_setTask _ hx with ⟨rfl, -⟩ | hx
    · rw [hnone' x rfl] at hi
      cases hi
    · exact h.known j x i hx hi
  numbered := h.setTask_numbered ht

/-- A closed registration without handlers gives its callback to the task that destroys it. -/
theorem Callbacks.retire (h : Callbacks heap tasks nextTask) (he : heap.lookup id = some e)
    (hsame : e'.releasing = e.releasing) (hnative : e'.native = e.native)
    (haccepting : e'.accepting = false ∨ e'.accepting = e.accepting) (hrunning : e'.running ≤ e.running)
    (hcounts : ∀ i, tasks'.countBy (destroysOf i) =
      tasks.countBy (destroysOf i) + if e'.retires = true ∧ i = id then 1 else 0)
    (hknown : ∀ j x i, tasks'.lookup j = some x → x.destroys = some i →
      i = id ∨ ∃ j x, tasks.lookup j = some x ∧ x.destroys = some i)
    (hnumbered : ∀ j x, tasks'.lookup j = some x → j < nextTask') :
    Callbacks (heap.insert id e'.retire) tasks' nextTask' := by
  have hold := h.destroyed id e he
  refine h.update ?_ ?_ ?_ hknown hnumbered
  · intro i hi
    rw [hcounts i, if_neg (fun hc => hi hc.2)]
    rfl
  · rw [hcounts id, hold]
    by_cases hr : e'.retires = true
    · -- a callback that is still there is not being destroyed
      have hnot : e.releasing = false := by
        by_contra hrel
        have hgone := (h.releasing id e he (by simpa using hrel)).2.2
        have hsome := (retires_iff.1 hr).2.2
        rw [hnative, hgone] at hsome
        cases hsome
      simp [EntryState.retire, hr, hnot]
    · simp [EntryState.retire, hr, hsame]
  · by_cases hr : e'.retires = true
    · obtain ⟨hacc, hrun, -⟩ := retires_iff.1 hr
      simp [EntryState.retire, hr, hacc, hrun]
    · simp only [EntryState.retire, hr]
      intro hrel
      obtain ⟨hacc, hrun, hnone⟩ := h.releasing id e he (hsame ▸ hrel)
      refine ⟨?_, by simp; omega, hnative.trans hnone⟩
      rcases haccepting with ha | ha
      · exact ha
      · exact ha.trans hacc

theorem Callbacks.release (h : Callbacks heap tasks nextTask) (ht : tasks.lookup k = some t)
    (hid : t.destroys = some id) (hnone' : ∀ x, t' = some x → x.destroys = none) :
    Callbacks (heap.adjust id fun e => { e with releasing := false }) (setTask tasks k t') nextTask := by
  obtain ⟨e, he⟩ := mem_iff_lookup.1 (h.known k t id ht hid)
  rw [adjust_of_lookup he]
  have hcounts : ∀ i, (setTask tasks k t').countBy (destroysOf i) + (if i = id then 1 else 0) =
      tasks.countBy (destroysOf i) := by
    intro i
    have hcount := countBy_setTask t' (destroysOf i) ht
    have hzero : (t'.elim 0 fun x => if destroysOf i x then 1 else 0) = 0 := by
      cases t' with
      | none => rfl
      | some y => simp [destroysOf, hnone' y rfl]
    have hsame : (if destroysOf i t = true then 1 else 0) = if i = id then 1 else 0 := by
      simp [destroysOf, hid, eq_comm]
    rw [hzero, hsame] at hcount
    simpa using hcount
  refine h.update ?_ ?_ ?_ ?_ (h.setTask_numbered ht)
  · intro i hi
    simpa [hi] using hcounts i
  · have hone := hcounts id
    rw [h.destroyed id e he, if_pos rfl] at hone
    simp only [Bool.false_eq_true, if_false]
    split at hone <;> omega
  · exact nofun
  · intro j x i hx hi
    rcases lookup_setTask _ hx with ⟨rfl, -⟩ | hx
    · rw [hnone' x rfl] at hi
      cases hi
    · exact .inr ⟨j, x, hx, hi⟩

/-- A registration that is drained has no call, no callback and no destructor. -/
theorem drained_free (ha : Accounts R heap calls running nextCall underflowed)
    (hb : Callbacks heap tasks nextTask) (he : heap.lookup id = some e) (hd : e.drained = true) :
    e.native = none ∧ (∀ k c, calls.lookup k = some c → c.entryId ≠ id) ∧
      ∀ k t, tasks.lookup k = some t → t.destroys ≠ some id := by
  obtain ⟨-, hrun, hnative, hrel⟩ := drained_iff.1 hd
  refine ⟨hnative, ?_, ?_⟩
  · intro k c hc hid
    have hzero := (ha.counts id e he).symm.trans hrun
    have := countBy_eq_zero.1 hzero k c hc
    simp [ofEntry, hid] at this
  · intro k t ht hid
    have hzero := hb.destroyed id e he
    rw [hrel] at hzero
    have := countBy_eq_zero.1 hzero k t ht
    simp [destroysOf, hid] at this

/-! ## Gates -/

/-- Gates only close. -/
def Narrows (heap heap' : AssocMap String EntryState) : Prop :=
  ∀ id e', heap'.lookup id = some e' → ∃ e, heap.lookup id = some e ∧
    (e.accepting = false → e'.accepting = false) ∧
    (e.finalizationOnly = true → e'.finalizationOnly = true)

theorem Narrows.refl : Narrows heap heap := fun _ e he => ⟨e, he, fun h => h, fun h => h⟩

theorem Narrows.setEntry (he : heap.lookup id = some e)
    (hacc : e.accepting = false → e'.accepting = false)
    (hfin : e.finalizationOnly = true → e'.finalizationOnly = true) :
    Narrows heap (heap.insert id e') := by
  intro i x hx
  rcases lookup_of_insert hx with ⟨hi, rfl⟩ | ⟨-, hx⟩
  · exact ⟨e, hi ▸ he, hacc, hfin⟩
  · exact ⟨x, hx, fun h => h, fun h => h⟩

theorem Narrows.narrow (h : Narrows heap heap') (he' : heap'.lookup id = some e') :
    ∃ e, heap.lookup id = some e ∧ (EntryState.narrow e → EntryState.narrow e') := by
  obtain ⟨e, he, hacc, hfin⟩ := h id e' he'
  exact ⟨e, he, Or.imp hacc hfin⟩

/-- Nothing that shuts down starts or ends. -/
theorem Gates.narrows (h : Gates R registry heap tasks log) (hheap : Narrows heap heap')
    (htasks : ∀ j ids, tasks'.lookup j = some (.beginShutdown ids) →
      ∃ j, tasks.lookup j = some (.beginShutdown ids)) (hlog : .shutdownBegun ∈ log' → .shutdownBegun ∈ log) :
    Gates R registry heap' tasks' log' where
  numbered := by
    intro i hi
    obtain ⟨x, hx⟩ := mem_iff_lookup.1 hi
    obtain ⟨y, hy, -⟩ := hheap i x hx
    exact h.numbered i (mem_of_lookup hy)
  forgotten := by
    intro i x hx hi
    obtain ⟨y, hy, hacc, -⟩ := hheap i x hx
    exact hacc (h.forgotten i y hy hi)
  shutting := by
    intro j ids hj
    obtain ⟨j, hj⟩ := htasks j ids hj
    obtain ⟨hclosing, hids⟩ := h.shutting j ids hj
    refine ⟨hclosing, ?_⟩
    intro i x hx
    obtain ⟨y, hy, hnarrow⟩ := hheap.narrow hx
    exact (hids i y hy).imp_right hnarrow
  shut := by
    intro hmem
    obtain ⟨hclosing, hall⟩ := h.shut (hlog hmem)
    refine ⟨hclosing, ?_⟩
    intro i x hx
    obtain ⟨y, hy, hnarrow⟩ := hheap.narrow hx
    exact hnarrow (hall i y hy)

/-- A registration is published only while the registry is open. -/
theorem Gates.publish (h : Gates R registry heap tasks log) (hopen : registry.closing = false)
    {active : AssocMap String String}
    (hid : id = IdentityKind.capability.render R.runtimeId (registry.sequence + 1)) :
    Gates R { registry with
        sequence := registry.sequence + 1
        active := active
        entries := registry.entries ++ [id] } (heap.insert id e) tasks log where
  numbered := by
    intro i hi
    rcases (mem_insert _).1 hi with rfl | hi
    · exact ⟨_, le_rfl, hid⟩
    · obtain ⟨n, hn, rfl⟩ := h.numbered i hi
      exact ⟨n, hn.trans (Nat.le_succ _), rfl⟩
  forgotten := by
    intro i x hx hi
    rw [lookup_insert_eq] at hx
    split at hx
    next heq => simp [heq] at hi
    next => exact h.forgotten i x hx (fun hmem => hi (List.mem_append_left _ hmem))
  shutting := by
    intro j ids hj
    rw [(h.shutting j ids hj).1] at hopen
    cases hopen
  shut := by
    intro hmem
    rw [(h.shut hmem).1] at hopen
    cases hopen

/-- The registry section of a call, and its task. -/
theorem Gates.open {registry' : RegistryState} (h : Gates R registry heap tasks log)
    (hseq : registry.sequence ≤ registry'.sequence) (hentries : registry'.entries = registry.entries)
    (hclosing : registry.closing = true → registry'.closing = true)
    (ht : ∀ ids, t = .beginShutdown ids → registry'.closing = true ∧ ids = registry.entries) :
    Gates R registry' heap (tasks.insert k t) log where
  numbered := by
    intro i hi
    obtain ⟨n, hn, rfl⟩ := h.numbered i hi
    exact ⟨n, hn.trans hseq, rfl⟩
  forgotten := by
    rw [hentries]
    exact h.forgotten
  shutting := by
    intro j ids hj
    rw [lookup_insert_eq] at hj
    split at hj
    next =>
      obtain ⟨hc, rfl⟩ := ht ids (Option.some.inj hj)
      refine ⟨hc, ?_⟩
      intro i x hx
      by_cases hi : i ∈ registry.entries
      · exact .inl hi
      · exact .inr (.inl (h.forgotten i x hx hi))
    next =>
      obtain ⟨hc, hids⟩ := h.shutting j ids hj
      exact ⟨hclosing hc, hids⟩
  shut := fun hmem => ⟨hclosing (h.shut hmem).1, (h.shut hmem).2⟩

theorem Gates.forget (h : Gates R registry heap tasks log) (he : heap.lookup id = some e)
    (hd : e.drained = true) :
    Gates R { registry with entries := registry.entries.filter (· ≠ id) } heap tasks log := { h with
  forgotten := by
    intro i x hx hi
    by_cases heq : i = id
    · rw [heq, he] at hx
      cases hx
      exact (drained_iff.1 hd).1
    · exact h.forgotten i x hx (fun hmem => hi (by simp [hmem, heq])) }

/-- `begin_shutdown` narrows one registration. -/
theorem Gates.narrowOne (h : Gates R registry heap tasks log)
    (hk : tasks.lookup k = some (.beginShutdown (id :: ids))) (he : heap.lookup id = some e) :
    Gates R registry (heap.insert id { e with finalizationOnly := true })
      (tasks.insert k (.beginShutdown ids)) log := by
  have hnarrows : Narrows heap (heap.insert id { e with finalizationOnly := true }) :=
    Narrows.setEntry he (fun h => h) (fun _ => rfl)
  exact {
    numbered := (h.narrows hnarrows (fun j ids hj => ⟨j, hj⟩) (fun hl => hl)).numbered
    forgotten := (h.narrows hnarrows (fun j ids hj => ⟨j, hj⟩) (fun hl => hl)).forgotten
    shutting := by
      intro j ids' hj
      rcases lookup_of_insert hj with ⟨-, ⟨⟩⟩ | ⟨-, hj⟩
      · obtain ⟨hc, hids⟩ := h.shutting k _ hk
        refine ⟨hc, ?_⟩
        intro i x hx
        rcases lookup_of_insert hx with ⟨-, rfl⟩ | ⟨hi, hx⟩
        · exact .inr (.inr rfl)
        · rcases hids i x hx with hmem | hnarrow
          · exact .inl ((List.mem_cons.1 hmem).resolve_left hi)
          · exact .inr hnarrow
      · exact (h.narrows hnarrows (fun j ids hj => ⟨j, hj⟩) (fun hl => hl)).shutting j ids' hj
    shut := (h.narrows hnarrows (fun j ids hj => ⟨j, hj⟩) (fun hl => hl)).shut }

/-- `begin_shutdown` returns once every registration is narrow. -/
theorem Gates.shutDown (h : Gates R registry heap tasks log)
    (hk : tasks.lookup k = some (.beginShutdown [])) :
    Gates R registry heap (tasks.erase k) (log ++ [.shutdownBegun]) := { h with
  shutting := fun j ids hj => h.shutting j ids (lookup_of_erase hj).2
  shut := by
    intro _
    obtain ⟨hc, hids⟩ := h.shutting k [] hk
    refine ⟨hc, ?_⟩
    intro i x hx
    exact (hids i x hx).resolve_left List.not_mem_nil }

end

end CapabilityRegistry

end LuaSkills.Embedded
